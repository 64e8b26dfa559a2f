import R9999.Core.Serial

/-!
# Cache operations and injected flushes

A serializing `CACHE` instruction, and a flush that was injected from outside, ask the
caches for their flush once they are alone and complete, wait in `CACHE_FLUSH` until all
three completion latches are set, and only then restart the fetch.  The caches are taken at
their word: each answers a request once, and answers nothing else.
-/

namespace R9999

namespace Core

/-! ## Requests -/

/-- What a cache operation asks for. -/
inductive FlushReq where
  /-- The whole L1D, and the L2 after it. -/
  | whole
  /-- The lines of a page. -/
  | page (addr : BitVec 64) (inval : Bool)
  /-- One line of the L1D. -/
  | line (addr : BitVec 64) (inval : Bool)
  /-- One set of the L1I. -/
  | l1iSet (idx : Nat)
  deriving DecidableEq, Repr

/-- The operations that flush. -/
def Op.flushes (op : Op) : Bool := decide (op = .cacheOp) || op.isXflush

/-- The flush that a complete operation encodes. -/
def encodes (p : Params) (s : State) (e : Entry) : FlushReq :=
  if e.uop.op = .xflush then .whole
  else if e.uop.op.isXflush then .page (xflushAddr s) (decide (e.uop.op = .xpgInv))
  else if e.uop.cacheIsD then .line (e.data &&& 0x1fffffff) e.uop.cacheInval
  else .l1iSet (l1iIdx p e.data)

/-- The requests that are raised. -/
def asks (n : Regs) : List FlushReq :=
  (if n.flushReqL1d then [.whole] else []) ++
    (if n.flushPgReq then [.page n.flushClAddr n.flushClInval] else []) ++
    (if n.flushClReq then [.line n.flushClAddr n.flushClInval] else []) ++
    (if n.flushLineReqL1i then [.l1iSet n.flushLineIdxL1i] else [])

/-- Which caches have an answer to give. -/
structure Owed where
  l1i : Bool
  l1d : Bool
  l2 : Bool
  deriving DecidableEq, Repr

def Owed.none : Owed := ⟨false, false, false⟩

/-- The caches that a request is for. -/
def FlushReq.owed : FlushReq → Owed
  | .whole => ⟨false, true, true⟩
  | .page _ _ => ⟨false, true, false⟩
  | .line _ _ => ⟨false, true, false⟩
  | .l1iSet _ => ⟨true, false, false⟩

/-- The requests of a cycle are added to what is owed. -/
def Owed.add (o : Owed) (qs : List FlushReq) : Owed :=
  qs.foldl (fun o q => ⟨o.l1i || q.owed.l1i, o.l1d || q.owed.l1d, o.l2 || q.owed.l2⟩) o

/-! ## The machine -/

/-- The core with its caches, and the history of the flushes: the requests that were raised
since the last serializing operation was allocated, and the numbers of injected flushes
that were accepted and reported. -/
structure FlushState where
  core : State
  owed : Owed
  asked : List FlushReq
  accepted : Nat
  reported : Nat

/-- The answers of the caches. -/
def answers (o : Owed) (i : Input) : Input :=
  { i with
    l1iFlushComplete := i.l1iFlushComplete && o.l1i
    l1dFlushComplete := i.l1dFlushComplete && o.l1d
    l2FlushComplete := i.l2FlushComplete && o.l2 }

/-- A serializing operation is allocated. -/
def allocsSerial (p : Params) (s : State) (i : Input) : Bool :=
  (comb p s i).alloc && !decide (s.regs.state = .active)

/-- One cycle. -/
def flushNext (p : Params) (s : FlushState) (i : Input) : FlushState :=
  let j := answers s.owed i
  let c := comb p s.core j
  { core := next p s.core j
    owed :=
      Owed.add ⟨s.owed.l1i && !j.l1iFlushComplete, s.owed.l1d && !j.l1dFlushComplete,
        s.owed.l2 && !j.l2FlushComplete⟩ (asks c.n)
    asked := if allocsSerial p s.core j then [] else s.asked ++ asks c.n
    accepted := s.accepted + (i.extFlushReq && !s.core.regs.xflushPend).toNat
    reported := s.reported + c.n.xflushDone.toNat }

/-- At reset the caches owe their initial flush. -/
def flushReset : FlushState := ⟨reset, ⟨true, true, true⟩, [], 0, 0⟩

/-! ## The flush registers -/

/-- The registers that the flushes go through. -/
structure FlushRegs where
  l1i : Bool
  l1d : Bool
  l2 : Bool
  asks : List FlushReq
  pend : Bool
  done : Bool
  ppn : BitVec 64
  whole : Bool
  drop : Bool

def Regs.flush (n : Regs) : FlushRegs where
  l1i := n.l1iFlushComplete
  l1d := n.l1dFlushComplete
  l2 := n.l2FlushComplete
  asks := asks n
  pend := n.xflushPend
  done := n.xflushDone
  ppn := n.xflushPpn
  whole := n.xflushWhole
  drop := n.xflushDrop

section Frame

variable {p : Params} {s : State} {i : Input}

@[simp] theorem finish_flush (c : Comb) : (finish s c).n.flush = c.n.flush := rfl

theorem allocate_flush (c : Comb) : (allocate p s i c).n.flush = c.n.flush := by
  obtain ⟨-, h⟩ | ⟨-, -, h⟩ | ⟨-, h⟩ := allocate_cases (p := p) (s := s) (i := i) c
  · rw [h]
  · rw [h]
    rfl
  · rw [h]

theorem faultedHead_flush (e : Entry) (c : Comb) : (faultedHead s e c).n.flush = c.n.flush := by
  unfold faultedHead
  dsimp only
  split <;> rfl

/-- The state is none of the two that hold completion latches. -/
def FsmState.unlatched (st : FsmState) : Prop := st ≠ .cacheFlush ∧ st ≠ .flushForHalt

/-- Only three states touch the flush registers. -/
theorem comb_flush (h1 : s.regs.state ≠ .waitForSerializeAndRestart)
    (h2 : s.regs.state ≠ .cacheFlush) (h3 : s.regs.state ≠ .flushForHalt) :
    (comb p s i).n.flush = (tick s i).n.flush := by
  cases hs : s.regs.state with
  | waitForSerializeAndRestart => exact (h1 hs).elim
  | cacheFlush => exact (h2 hs).elim
  | flushForHalt => exact (h3 hs).elim
  | active =>
    obtain ⟨c, hturn, hcomb⟩ := comb_active (p := p) (i := i) hs
    rw [hcomb, finish_flush]
    cases hturn with
    | detour => rfl
    | fault e => exact faultedHead_flush e (tick s i)
    | restart e =>
      rw [accumulate_n]
      exact faultedHead_flush e (tick s i)
    | retire =>
      rw [accumulate_n]
      exact allocate_flush (tick s i)
    | wait => exact allocate_flush (tick s i)
  | drain =>
    obtain ⟨c, hturn, hcomb⟩ := comb_drain (p := p) (i := i) hs
    rw [hcomb, finish_flush]
    cases hturn <;> rfl
  | rat =>
    rw [comb_rat hs, finish_flush, rat]
    dsimp only
    split <;> rfl
  | archFault =>
    rw [comb_archFault hs, finish_flush, archFault]
    split
    · rfl
    · dsimp only
      split <;> rfl
  | allocForSerialize =>
    obtain hc | ⟨-, hc⟩ := alone_turn (p := p) (i := i) (.inl ⟨hs, rfl⟩)
    · rw [hc, finish_flush]
    · rw [hc, finish_flush]
      rfl
  | serializeInFaultedDelaySlot =>
    obtain hc | ⟨-, hc⟩ := alone_turn (p := p) (i := i) (.inr ⟨hs, rfl⟩)
    · rw [hc, finish_flush]
    · rw [hc, finish_flush]
      rfl
  | waitForSerializeInFaultedDelaySlot =>
    simp only [comb, arm, hs, finish_flush, waitInSlot]
    split
    · split
      · split <;> rfl
      · rfl
    · rfl
  | exceptionDrain =>
    simp only [comb, arm, hs, finish_flush, exceptionDrain]
    split <;> rfl
  | halt =>
    simp only [comb, arm, hs, finish_flush, halt]
    split <;> rfl
  | haltWaitForRestart =>
    simp only [comb, arm, hs, finish_flush, haltWaitForRestart]
    split <;> rfl
  | writeEpc =>
    simp only [comb, arm, hs, finish_flush]
    rfl
  | dead => simp only [comb, arm, hs, finish_flush]

/-- A request sets the latches of the caches that it is not for. -/
theorem requestFlush_flush (e : Entry) {c : Comb}
    (hc : asks c.n = []) :
    (requestFlush p s e c).n.flush =
      { c.n.flush with
        asks := [encodes p s e]
        l1i := c.n.l1iFlushComplete || !(encodes p s e).owed.l1i
        l1d := c.n.l1dFlushComplete || !(encodes p s e).owed.l1d
        l2 := c.n.l2FlushComplete || !(encodes p s e).owed.l2 } := by
  simp only [asks, List.append_eq_nil_iff] at hc
  obtain ⟨⟨⟨h1, h2⟩, h3⟩, h4⟩ := hc
  have off {b : Bool} {q : FlushReq} (h : (if b then [q] else []) = []) : b = false := by
    cases b
    · rfl
    · cases h
  replace h1 := off h1
  replace h2 := off h2
  replace h3 := off h3
  replace h4 := off h4
  unfold requestFlush encodes
  dsimp only
  split
  · simp [Regs.flush, asks, FlushReq.owed, h2, h3, h4]
  split
  · simp [Regs.flush, asks, FlushReq.owed, h1, h3, h4]
  split
  · simp [Regs.flush, asks, FlushReq.owed, h1, h2, h4]
  · simp [Regs.flush, asks, FlushReq.owed, h1, h2, h3]

/-- What a cycle does with the flush registers, with the conditions it does it under. -/
inductive FlushTurn (p : Params) (s : State) (i : Input) : Prop where
  /-- The state has no use for them. -/
  | keep (hs : s.regs.state.unlatched) (hn : (next p s i).regs.state.unlatched)
      (hreg : (comb p s i).n.flush = (tick s i).n.flush)
      (hwait : ∀ e, s.regs.state = .waitForSerializeAndRestart → s.rob[0]? = some e →
        e.uop.op.flushes = true → (next p s i).regs.state = .waitForSerializeAndRestart)
      (hnew : (next p s i).regs.state = .waitForSerializeAndRestart →
        s.regs.state = .waitForSerializeAndRestart ∨ s.regs.state = .allocForSerialize)
  /-- The operation at the head asks for its flush. -/
  | ask (e : Entry) (hs : s.regs.state = .waitForSerializeAndRestart) (hrob : s.rob = [e])
      (hdone : e.done = true) (hop : e.uop.op.flushes = true) (hn : (next p s i).regs.state = .cacheFlush)
      (hreg : (comb p s i).n.flush =
        { (tick s i).n.flush with
          asks := [encodes p s e]
          l1i := (tick s i).n.l1iFlushComplete || !(encodes p s e).owed.l1i
          l1d := (tick s i).n.l1dFlushComplete || !(encodes p s e).owed.l1d
          l2 := (tick s i).n.l2FlushComplete || !(encodes p s e).owed.l2 })
  /-- The latches are awaited, or the acknowledge of the restart is. -/
  | await (hs : ¬ s.regs.state.unlatched) (hn : (next p s i).regs.state = s.regs.state)
      (hreg : (comb p s i).n.flush = (tick s i).n.flush)
      (hrestart : (comb p s i).n.restartValid = true → allFlushed (tick s i) = true)
  /-- All the latches are set. -/
  | settle (x : Bool) (hs : ¬ s.regs.state.unlatched) (hn : (next p s i).regs.state.unlatched)
      (hwait : (next p s i).regs.state ≠ .waitForSerializeAndRestart)
      (hall : allFlushed (tick s i) = true)
      (hreg : (comb p s i).n.flush =
        { (tick s i).n.flush with
          l1i := false, l1d := false, l2 := false
          pend := !x && (tick s i).n.xflushPend
          done := x })
      (hx : x = true → s.regs.state = .cacheFlush ∧ (comb p s i).clrDq = true ∧
        (next p s i).regs.state = .active ∧ ∃ e, s.rob = [e] ∧ e.uop.op.isXflush = true)

theorem flush_cases (h : Sane s) : FlushTurn p s i := by
  have hfits := h.fits
  by_cases h1 : s.regs.state = .waitForSerializeAndRestart
  · simp only [Fits, h1] at hfits
    obtain ⟨e, hrob, -⟩ := hfits
    have hs : s.regs.state.unlatched := by
      rw [h1]
      exact ⟨(fun h => by cases h), (fun h => by cases h)⟩
    have hcomb : comb p s i = finish s (waitForSerialize p s (tick s i)) := by
      simp [comb, arm, h1]
    have hturn := serial_turn (p := p) hrob (tick s i)
    revert hcomb
    generalize waitForSerialize p s (tick s i) = c at hturn
    intro hcomb
    -- an operation that flushes does not restart the fetch from here
    have hno (hop : e.uop.op ≠ .cacheOp) (hx : e.uop.op.isXflush = false) :
        ∀ f, s.regs.state = .waitForSerializeAndRestart → s.rob[0]? = some f →
          f.uop.op.flushes = true →
          (next p s i).regs.state = .waitForSerializeAndRestart := by
      intro f _ hf hfl
      obtain rfl : e = f := by simpa [hrob] using hf
      simp [Op.flushes, hop, hx] at hfl
    cases hturn with
    | wait =>
      have hn : (next p s i).regs.state = .waitForSerializeAndRestart := by
        simp [next, hcomb, finish, h1]
      exact .keep hs (by rw [hn]; exact ⟨(fun h => by cases h), (fun h => by cases h)⟩) (by rw [hcomb, finish_flush])
        (fun _ _ _ _ => hn) fun _ => .inl h1
    | flush hdone hop =>
      refine .ask e h1 hrob hdone (by simpa [Op.flushes] using hop) ?_ ?_
      · obtain ⟨n, hr, hn⟩ := requestFlush_frame (p := p) (s := s) e (tick s i)
        simp [next, hcomb, finish, hr, hn]
      · rw [hcomb, finish_flush]
        exact requestFlush_flush e rfl
    | restart hdone hop hx =>
      have hn : (next p s i).regs.state = .waitForSerializeAndRestart := by
        simp [next, hcomb, finish, restartAfter, h1]
      refine .keep hs (by rw [hn]; exact ⟨(fun h => by cases h), (fun h => by cases h)⟩) ?_ (hno hop hx) fun _ => .inl h1
      rw [hcomb, finish_flush]
      rfl
    | resume hdone hop hx =>
      have hn : (next p s i).regs.state = .active := by simp [next, hcomb, finish]
      refine .keep hs (by rw [hn]; exact ⟨(fun h => by cases h), (fun h => by cases h)⟩) ?_ (hno hop hx) fun _ => .inl h1
      rw [hcomb, finish_flush]
      rfl
  by_cases h2 : s.regs.state = .cacheFlush
  · simp only [Fits, h2] at hfits
    obtain ⟨e, hrob, -, -⟩ := hfits
    have hs : ¬ s.regs.state.unlatched := fun h => h.1 h2
    have hcomb : comb p s i = finish s (cacheFlush s (tick s i)) := by simp [comb, arm, h2]
    have hturn := flush_turn hrob (tick s i)
    revert hcomb
    generalize cacheFlush s (tick s i) = c at hturn
    intro hcomb
    cases hturn with
    | wait hall =>
      refine .await hs (by simp [next, hcomb, finish]) (by rw [hcomb, finish_flush]) ?_
      intro hr
      simp [hcomb, finish, tick] at hr
    | restart hall =>
      exact .await hs (by simp [next, hcomb, finish, restartAfter])
        (by rw [hcomb, finish_flush]; rfl) fun _ => hall
    | resume hall hack n hn =>
      have hst : (next p s i).regs.state = .active := by simp [next, hcomb, finish, hn]
      refine .settle e.uop.op.isXflush hs (by rw [hst]; exact ⟨(fun h => by cases h), (fun h => by cases h)⟩)
        (by rw [hst]; exact (fun h => by cases h)) hall ?_ ?_
      · rw [hcomb, finish_flush, hn]
        cases hx : e.uop.op.isXflush with
        | false => simp [Regs.flush, asks, restartAfter, tick]
        | true => simp [Regs.flush, asks, restartAfter, tick]
      · intro hx
        exact ⟨h2, by simp [hcomb, finish, restartAfter], hst, e, hrob, hx⟩
  by_cases h3 : s.regs.state = .flushForHalt
  · have hs : ¬ s.regs.state.unlatched := fun h => h.2 h3
    have hcomb : comb p s i = finish s (flushForHalt (tick s i)) := by simp [comb, arm, h3]
    unfold flushForHalt at hcomb
    split at hcomb
    next hall =>
      have hst : (next p s i).regs.state = .halt := by simp [next, hcomb, finish]
      refine .settle false hs (by rw [hst]; exact ⟨(fun h => by cases h), (fun h => by cases h)⟩) (by rw [hst]; exact (fun h => by cases h)) hall
        ?_ (fun h => by cases h)
      rw [hcomb, finish_flush]
      simp [Regs.flush, asks, tick]
    next hall =>
      refine .await hs (by simp [next, hcomb, finish]) (by rw [hcomb, finish_flush]) ?_
      intro hr
      simp [hcomb, finish, tick] at hr
  have hn := state_next (p := p) (i := i) h.rob hfits
  have hlatch : (next p s i).regs.state.unlatched := by
    constructor
    · intro hst
      rw [hst] at hn
      revert hn
      cases hs : s.regs.state <;> simp_all [FsmState.succs]
    · intro hst
      rw [hst] at hn
      revert hn
      cases hs : s.regs.state <;> simp_all [FsmState.succs]
  refine .keep ⟨h2, h3⟩ hlatch (comb_flush h1 h2 h3) (fun _ hw => (h1 hw).elim) ?_
  intro hst
  rw [hst] at hn
  revert hn
  cases hs : s.regs.state <;> simp_all [FsmState.succs]

end Frame

/-! ## The law -/

/-- The request is one that the operation encodes, with the page that was pending when it
was raised. -/
def Encodes (p : Params) (e : Entry) (q : FlushReq) : Prop := ∃ a, q = encodes p a e

/-- No latch is set and no answer is outstanding. -/
structure Settled (s : FlushState) : Prop where
  owed : s.owed = .none
  l1i : s.core.regs.l1iFlushComplete = false
  l1d : s.core.regs.l1dFlushComplete = false
  l2 : s.core.regs.l2FlushComplete = false

/-- The flush of an entry was asked for once and has been answered. -/
def Served (p : Params) (s : FlushState) (e : Entry) : Prop :=
  s.owed = .none ∧ ∃ q, s.asked = [q] ∧ Encodes p e q

/-- The operation is the external flush that is pending. -/
def IsPending (s : State) (op : Op) : Prop :=
  s.regs.xflushPend = true ∧ op = (xflushOp s.regs).op

/-- What a cycle has to keep of the flushes. -/
structure FlushOk (p : Params) (s : FlushState) (i : Input) : Prop where
  /-- A request is the flush of the lone operation at the head, its first, and nothing is
  left over from an earlier one. -/
  fresh : asks (comb p s.core (answers s.owed i)).n ≠ [] →
    s.asked = [] ∧ Settled s ∧ ∃ e, s.core.rob = [e] ∧ e.uop.op.flushes = true ∧
      (e.uop.op.isXflush = true → IsPending s.core e.uop.op) ∧
      asks (comb p s.core (answers s.owed i)).n = [encodes p s.core e]
  /-- The fetch restarts when all the caches have answered; after an injected flush, at the
  instruction whose place it took. -/
  answered : s.core.regs.state = .cacheFlush →
    (comb p s.core (answers s.owed i)).n.restartValid = true →
    (flushNext p s i).owed = .none ∧ ∃ e q, s.core.rob = [e] ∧ s.asked = [q] ∧ Encodes p e q ∧
      (e.uop.op.isXflush = true →
        (comb p s.core (answers s.owed i)).n.restartPc = e.uop.pc)
  /-- An operation that retires has had its flush. -/
  performed : ∀ e ∈ retiring s.core (comb p s.core (answers s.owed i)),
    e.uop.op.flushes = true → Served p s e
  /-- An external flush stays pending, as it was requested, until it has been performed, and
  is then reported once. -/
  counted : s.accepted = s.reported + s.core.regs.xflushPend.toNat
  held : s.core.regs.xflushPend = true →
    (flushNext p s i).core.regs.xflushPpn = s.core.regs.xflushPpn ∧
      xflushOp (flushNext p s i).core.regs = xflushOp s.core.regs
  reported : (comb p s.core (answers s.owed i)).n.xflushDone = true →
    ∃ e, s.core.rob = [e] ∧ e.uop.op.isXflush = true ∧ s.core.regs.state = .cacheFlush ∧
      (next p s.core (answers s.owed i)).regs.state = .active

/-! ## The invariant -/

/-- A latch is set when its cache has nothing to answer any more. -/
structure Latched (s : FlushState) : Prop where
  l1i : s.core.regs.l1iFlushComplete = !s.owed.l1i
  l1d : s.core.regs.l1dFlushComplete = !s.owed.l1d
  l2 : s.core.regs.l2FlushComplete = !s.owed.l2

/-- What has been asked for, by the place of the entry that flushes. -/
structure Heard (p : Params) (s : FlushState) (k : Nat) (e : Entry) : Prop where
  head : k = 0 → s.core.regs.state = .active ∨ s.core.regs.state = .cacheFlush →
    ∃ q, s.asked = [q] ∧ Encodes p e q
  alone : k = 0 → s.core.regs.state = .waitForSerializeAndRestart ∨ s.core.regs.state = .drain →
    s.asked = []
  slot : k = 1 → s.core.regs.state = .waitForSerializeInFaultedDelaySlot ∨
    s.core.regs.state = .active → s.asked = []

/-- The operation waits for its turn: it is in the decode queue, or the core waits for it. -/
def Waits (s : State) (u : Uop) : Prop :=
  u ∈ s.dq ∨ (s.regs.state = .waitForSerializeAndRestart ∨ s.regs.state = .cacheFlush) ∧
    ∃ e, s.rob[0]? = some e ∧ e.uop = u

structure FlushInv (p : Params) (s : FlushState) : Prop where
  sane : Sane s.core
  placed : Placed s.core
  settled : s.core.regs.state.unlatched → Settled s
  latched : ¬ s.core.regs.state.unlatched → Latched s
  heard : ∀ k e, s.core.rob[k]? = some e → e.uop.op.flushes = true → Heard p s k e
  pending : ∀ u, Waits s.core u → u.op.isXflush = true → IsPending s.core u.op
  counted : s.accepted = s.reported + s.core.regs.xflushPend.toNat

theorem flushInv_reset (p : Params) : FlushInv p flushReset where
  sane := sane_reset
  placed := placed_reset
  settled := fun h => (h.2 rfl).elim
  latched := fun _ => ⟨rfl, rfl, rfl⟩
  heard := by
    intro k e he
    simp [flushReset, reset] at he
  pending := by
    rintro u (hu | ⟨-, e, he, -⟩)
    · simp [flushReset, reset] at hu
    · simp [flushReset, reset] at he
  counted := rfl

section Invariant

variable {p : Params} {s : FlushState} {i : Input}

theorem Op.flushes_serializing (u : Uop) (h : u.op.flushes = true) : u.serializingOp = true := by
  simp only [Op.flushes, Bool.or_eq_true, decide_eq_true_eq] at h
  obtain h | h := h
  · exact u.ok.cacheOp h
  · exact u.ok.xflush h

theorem Op.isXflush_flushes {op : Op} (h : op.isXflush = true) : op.flushes = true := by
  simp [Op.flushes, h]

theorem tick_flush (s : State) (j : Input) :
    (tick s j).n.flush =
      { l1i := s.regs.l1iFlushComplete || j.l1iFlushComplete
        l1d := s.regs.l1dFlushComplete || j.l1dFlushComplete
        l2 := s.regs.l2FlushComplete || j.l2FlushComplete
        asks := []
        pend := s.regs.xflushPend || j.extFlushReq
        done := false
        ppn := if j.extFlushReq && !s.regs.xflushPend then j.extFlushPpn else s.regs.xflushPpn
        whole :=
          if j.extFlushReq && !s.regs.xflushPend then j.extFlushWhole else s.regs.xflushWhole
        drop :=
          if j.extFlushReq && !s.regs.xflushPend then j.extFlushDrop else s.regs.xflushDrop } :=
  rfl

theorem latches_of {n : Regs} {r : FlushRegs} (h : n.flush = r) :
    n.l1iFlushComplete = r.l1i ∧ n.l1dFlushComplete = r.l1d ∧ n.l2FlushComplete = r.l2 ∧
      asks n = r.asks := by
  subst h
  exact ⟨rfl, rfl, rfl, rfl⟩

theorem owed_next (ha : asks (comb p s.core (answers s.owed i)).n = []) :
    (flushNext p s i).owed =
      ⟨s.owed.l1i && !(i.l1iFlushComplete && s.owed.l1i),
        s.owed.l1d && !(i.l1dFlushComplete && s.owed.l1d),
        s.owed.l2 && !(i.l2FlushComplete && s.owed.l2)⟩ := by
  simp only [flushNext, ha]
  rfl

/-- The latches are set together when nothing is owed. -/
theorem owed_settle (h : Latched s) (hall : allFlushed (tick s.core (answers s.owed i)) = true)
    (ha : asks (comb p s.core (answers s.owed i)).n = []) : (flushNext p s i).owed = .none := by
  have clear {o c : Bool} (h : (!o || (c && o)) = true) : (o && !(c && o)) = false := by
    cases o <;> cases c <;> simp_all
  simp only [allFlushed, tick, answers, h.l1i, h.l1d, h.l2, Bool.and_eq_true] at hall
  rw [owed_next ha, clear hall.1.1, clear hall.1.2, clear hall.2]
  rfl

/-- The latches and the answers that are owed after a cycle. -/
theorem latch_next (h : FlushInv p s) :
    ((flushNext p s i).core.regs.state.unlatched → Settled (flushNext p s i)) ∧
      (¬ (flushNext p s i).core.regs.state.unlatched → Latched (flushNext p s i)) := by
  have hturn := flush_cases (p := p) (i := answers s.owed i) h.sane
  cases hturn with
  | keep hs hn hreg =>
    obtain ⟨ho, h1, h2, h3⟩ := h.settled hs
    obtain ⟨hl1, hl2, hl3, ha⟩ := latches_of hreg
    refine ⟨fun _ => ⟨?_, hl1.trans ?_, hl2.trans ?_, hl3.trans ?_⟩, fun hno => (hno hn).elim⟩
    · simp [owed_next ha, ho, Owed.none]
    · simp [tick_flush, answers, ho, h1, Owed.none]
    · simp [tick_flush, answers, ho, h2, Owed.none]
    · simp [tick_flush, answers, ho, h3, Owed.none]
  | ask e hs hrob hdone hop hn hreg =>
    obtain ⟨ho, h1, h2, h3⟩ := h.settled (by rw [hs]; exact ⟨nofun, nofun⟩)
    obtain ⟨hl1, hl2, hl3, ha⟩ := latches_of hreg
    have hout : ¬ (flushNext p s i).core.regs.state.unlatched := fun h => h.1 hn
    have howed : (flushNext p s i).owed = (encodes p s.core e).owed := by
      simp only [flushNext, ha]
      simp [answers, ho, Owed.add, Owed.none]
    refine ⟨fun h => (hout h).elim, fun _ => ⟨hl1.trans ?_, hl2.trans ?_, hl3.trans ?_⟩⟩
    · simp [howed, tick, answers, ho, h1, Owed.none]
    · simp [howed, tick, answers, ho, h2, Owed.none]
    · simp [howed, tick, answers, ho, h3, Owed.none]
  | await hs hn hreg =>
    obtain ⟨h1, h2, h3⟩ := h.latched hs
    obtain ⟨hl1, hl2, hl3, ha⟩ := latches_of hreg
    have hout : ¬ (flushNext p s i).core.regs.state.unlatched := fun h => hs (hn ▸ h)
    have howed := owed_next ha
    refine ⟨fun h => (hout h).elim, fun _ => ⟨hl1.trans ?_, hl2.trans ?_, hl3.trans ?_⟩⟩
    · simp only [howed, tick_flush, answers, h1]
      cases s.owed.l1i <;> simp
    · simp only [howed, tick_flush, answers, h2]
      cases s.owed.l1d <;> simp
    · simp only [howed, tick_flush, answers, h3]
      cases s.owed.l2 <;> simp
  | settle x hs hn hwait hall hreg hx =>
    obtain ⟨hl1, hl2, hl3, ha⟩ := latches_of hreg
    exact ⟨fun _ => ⟨owed_settle (h.latched hs) hall ha, hl1, hl2, hl3⟩, fun hno => (hno hn).elim⟩

/-- The external flush that is pending stays as it is until it is reported. -/
theorem isPending_next {op : Op} (h : FlushInv p s) (hp : IsPending s.core op)
    (hq : (flushNext p s i).core.regs.state ≠ .active ∨
      (comb p s.core (answers s.owed i)).clrDq = false) :
    IsPending (flushNext p s i).core op := by
  obtain ⟨hpend, hop⟩ := hp
  have fixed {r : FlushRegs} (hreg : (comb p s.core (answers s.owed i)).n.flush = r)
      (hw : r.whole = (tick s.core (answers s.owed i)).n.xflushWhole)
      (hd : r.drop = (tick s.core (answers s.owed i)).n.xflushDrop)
      (hr : r.pend = true) : IsPending (flushNext p s i).core op := by
    have h1 : (flushNext p s i).core.regs.xflushPend = r.pend := congrArg FlushRegs.pend hreg
    have h2 : (flushNext p s i).core.regs.xflushWhole = r.whole := congrArg FlushRegs.whole hreg
    have h3 : (flushNext p s i).core.regs.xflushDrop = r.drop := congrArg FlushRegs.drop hreg
    refine ⟨h1.trans hr, ?_⟩
    rw [hop, xflushOp, xflushOp, h2, h3, hw, hd]
    simp [tick, hpend]
  have hturn := flush_cases (p := p) (i := answers s.owed i) h.sane
  cases hturn with
  | keep hs hn hreg => exact fixed hreg rfl rfl (by simp [tick_flush, hpend])
  | ask e hs hrob hdone hop hn hreg => exact fixed hreg rfl rfl (by simp [tick_flush, hpend])
  | await hs hn hreg => exact fixed hreg rfl rfl (by simp [tick_flush, hpend])
  | settle x hs hn hwait hall hreg hx =>
    refine fixed hreg rfl rfl ?_
    cases x with
    | false => simp [tick, hpend]
    | true =>
      obtain ⟨-, hclr, hst, -⟩ := hx rfl
      obtain hq | hq := hq
      · exact (hq hst).elim
      · simp [hclr] at hq

theorem mem_decoded {s : State} {j : Input} {as : List Insn} {u : Uop}
    (h : u ∈ decoded s j as) : ∃ b a, u = decode s j b a := by
  unfold decoded at h
  split at h
  · cases h
  · exact ⟨_, _, List.mem_singleton.mp h⟩
  · simp only [List.mem_cons, List.not_mem_nil, or_false] at h
    obtain h | h := h
    · exact ⟨_, _, h⟩
    · exact ⟨_, _, h⟩

/-- An injected flush is decoded only while one is pending. -/
theorem decode_xflush {s : State} {j : Input} {b : Bool} {a : Insn}
    (h : (decode s j b a).op.isXflush = true) : IsPending s (decode s j b a).op := by
  unfold decode at h ⊢
  split at h
  next => simp [Uop.irq, UopFields.blank, Op.isXflush] at h
  next hirq =>
    rw [if_neg hirq]
    split at h
    next hx =>
      rw [if_pos hx]
      simp only [Bool.and_eq_true] at hx
      exact ⟨hx.1, rfl⟩
    next => simp [a.own.2] at h

/-- The operations that wait after a cycle waited before it, or were decoded in it. -/
theorem waits_next (h : FlushInv p s) {u : Uop} (hu : Waits (flushNext p s i).core u) :
    ((flushNext p s i).core.regs.state ≠ .active ∨
        (comb p s.core (answers s.owed i)).clrDq = false) ∧
      (Waits s.core u ∨ ∃ b a, u = decode s.core (answers s.owed i) b a) := by
  obtain hu | ⟨hst, e', he', rfl⟩ := hu
  · simp only [flushNext, next] at hu
    split at hu
    · cases hu
    next hclr =>
      refine ⟨.inr (by simpa using hclr), ?_⟩
      obtain hu | hu := List.mem_append.mp hu
      · exact .inl (.inl (List.mem_of_mem_drop hu))
      · exact .inr (mem_decoded hu)
  · refine ⟨.inl (by obtain hst | hst := hst <;> simp [hst]), .inl ?_⟩
    have hfrom : s.core.regs.state = .waitForSerializeAndRestart ∨
        s.core.regs.state = .cacheFlush ∨ s.core.regs.state = .allocForSerialize := by
      have hturn := flush_cases (p := p) (i := answers s.owed i) h.sane
      change (next p s.core (answers s.owed i)).regs.state = _ ∨
        (next p s.core (answers s.owed i)).regs.state = _ at hst
      cases hturn with
      | keep hs hn hreg hwait hnew =>
        obtain hst | hst := hst
        · obtain hs | hs := hnew hst
          · exact .inl hs
          · exact .inr (.inr hs)
        · exact (hn.1 hst).elim
      | ask e hs => exact .inl hs
      | await hs hn =>
        rw [hn] at hst
        obtain hst | hst := hst
        · exact .inl hst
        · exact .inr (.inl hst)
      | settle x hs hn hwait =>
        obtain hst | hst := hst
        · exact (hwait hst).elim
        · exact (hn.1 hst).elim
    have hfits := h.sane.fits
    have held (hs : s.core.regs.state = .waitForSerializeAndRestart ∨
        s.core.regs.state = .cacheFlush) : Waits s.core e'.uop := by
      have hstill := comb_still (p := p) (i := answers s.owed i) h.sane.rob hfits
        (by obtain hs | hs := hs <;> simp [hs, FsmState.still])
      simp only [flushNext, next, hstill.rob, progress_getElem?, Option.map_eq_some_iff] at he'
      obtain ⟨e, he, rfl⟩ := he'
      exact .inr ⟨hs, e, he, by simp⟩
    obtain hs | hs | hs := hfrom
    · exact held (.inl hs)
    · exact held (.inr hs)
    · simp only [Fits, hs] at hfits
      simp only [flushNext, next, nextRob] at he'
      split at he'
      · cases he'
      simp only [progress, hfits.1, List.mapIdx_nil, List.drop_nil, List.nil_append] at he'
      obtain ⟨u, d, t, rfl, -, hu | ⟨hu, -⟩⟩ := mem_newEntries (List.mem_of_getElem? he')
      · exact .inl (List.mem_of_getElem? hu)
      · exact .inl (List.mem_of_getElem? hu)

theorem waits_pending (h : FlushInv p s) {u : Uop} (hu : Waits (flushNext p s i).core u)
    (hx : u.op.isXflush = true) : IsPending (flushNext p s i).core u.op := by
  obtain ⟨hq, hu | ⟨b, a, rfl⟩⟩ := waits_next h hu
  · exact isPending_next h (h.pending u hu hx) hq
  · exact isPending_next h (decode_xflush hx) hq

theorem counted_next (h : FlushInv p s) : (flushNext p s i).accepted =
    (flushNext p s i).reported + (flushNext p s i).core.regs.xflushPend.toNat := by
  have hcount := h.counted
  have law {r : FlushRegs} (hreg : (comb p s.core (answers s.owed i)).n.flush = r)
      (hr : s.core.regs.xflushPend.toNat + (i.extFlushReq && !s.core.regs.xflushPend).toNat =
        r.done.toNat + r.pend.toNat) : (flushNext p s i).accepted =
      (flushNext p s i).reported + (flushNext p s i).core.regs.xflushPend.toNat := by
    have hd : (comb p s.core (answers s.owed i)).n.xflushDone = r.done :=
      congrArg FlushRegs.done hreg
    have hp : (flushNext p s i).core.regs.xflushPend = r.pend := congrArg FlushRegs.pend hreg
    rw [hp]
    simp only [flushNext, hd]
    omega
  have same : s.core.regs.xflushPend.toNat + (i.extFlushReq && !s.core.regs.xflushPend).toNat =
      (tick s.core (answers s.owed i)).n.flush.done.toNat +
        (tick s.core (answers s.owed i)).n.flush.pend.toNat := by
    simp only [tick_flush, answers]
    cases s.core.regs.xflushPend <;> cases i.extFlushReq <;> rfl
  have hturn := flush_cases (p := p) (i := answers s.owed i) h.sane
  cases hturn with
  | keep hs hn hreg => exact law hreg same
  | ask e hs hrob hdone hop hn hreg => exact law hreg same
  | await hs hn hreg => exact law hreg same
  | settle x hs hn hwait hall hreg hx =>
    refine law hreg ?_
    cases x with
    | false => exact same
    | true =>
      obtain ⟨hst, -, -, e, hrob, hex⟩ := hx rfl
      obtain ⟨hp, -⟩ := h.pending e.uop (.inr ⟨.inr hst, e, by simp [hrob], rfl⟩) hex
      simp [hp]

/-- A serializing operation is allocated with no other cache operation around. -/
theorem allocsSerial_kept (h : FlushInv p s) {k : Nat} {e : Entry}
    (he : s.core.rob[k]? = some e) (hop : e.uop.op.flushes = true) :
    allocsSerial p s.core (answers s.owed i) = false := by
  cases hal : allocsSerial p s.core (answers s.owed i) with
  | false => rfl
  | true =>
    simp only [allocsSerial, Bool.and_eq_true, Bool.not_eq_true', decide_eq_false_iff_not] at hal
    have hfits := h.sane.fits
    obtain ⟨hs, -⟩ | ⟨hs | hs, -⟩ := alloc_cases h.sane.rob hfits hal.1
    · exact (hal.2 hs).elim
    · simp only [Fits, hs] at hfits
      simp [hfits.1] at he
    · simp only [Fits, hs] at hfits
      obtain ⟨b, hrob, hmis, -⟩ := hfits
      have hb : e = b := by
        rw [hrob] at he
        simpa using List.mem_of_getElem? he
      obtain ⟨-, -, -, hds, -⟩ :=
        e.uop.ok.plain (e.uop.ok.serializing (Op.flushes_serializing e.uop hop))
      rw [hb, hmis.slot] at hds
      cases hds

/-- A cycle that asks for nothing and allocates no serializing operation. -/
theorem asked_next (ha : asks (comb p s.core (answers s.owed i)).n = [])
    (hal : allocsSerial p s.core (answers s.owed i) = false) :
    (flushNext p s i).asked = s.asked := by
  simp [flushNext, ha, hal]

/-- Only the wait for a serializing operation asks. -/
theorem asks_nil (h : FlushInv p s) (hs : s.core.regs.state ≠ .waitForSerializeAndRestart) :
    asks (comb p s.core (answers s.owed i)).n = [] := by
  have hturn := flush_cases (p := p) (i := answers s.owed i) h.sane
  cases hturn with
  | keep _ _ hreg => exact congrArg FlushRegs.asks hreg
  | ask e hs' => exact (hs hs').elim
  | await _ _ hreg => exact congrArg FlushRegs.asks hreg
  | settle _ _ _ _ _ hreg => exact congrArg FlushRegs.asks hreg

theorem heard_kept (h : FlushInv p s) {k : Nat} {e : Entry}
    (hclr : (comb p s.core (answers s.owed i)).clrRob = false)
    (he : s.core.rob[leaving (comb p s.core (answers s.owed i)) + k]? = some e)
    (hop : e.uop.op.flushes = true) :
    Heard p (flushNext p s i) k (e.next s.core (answers s.owed i)
      (leaving (comb p s.core (answers s.owed i)) + k)) := by
  have hser := Op.flushes_serializing e.uop hop
  have hal := allocsSerial_kept (i := i) h he hop
  have hheard := h.heard _ e he hop
  have hseat := h.placed _ e he hser
  cases hseat with
  | alone hk hs =>
    have hasked := hheard.alone hk (.inl hs)
    have hlatch : s.core.regs.state.unlatched := by
      rw [hs]
      exact ⟨nofun, nofun⟩
    have hhead : s.core.rob[0]? = some e := hk ▸ he
    have hturn := flush_cases (p := p) (i := answers s.owed i) h.sane
    cases hturn with
    | keep _ _ hreg hwait =>
      have hst : (flushNext p s i).core.regs.state = .waitForSerializeAndRestart :=
        hwait e hs hhead hop
      have hn := asked_next (congrArg FlushRegs.asks hreg) hal
      exact ⟨fun _ h => by simp [hst] at h, fun _ _ => hn.trans hasked, fun _ => by omega⟩
    | ask e₀ _ hrob hdone _ hn hreg =>
      obtain rfl : e₀ = e := by simpa [hrob] using hhead
      have hst : (flushNext p s i).core.regs.state = .cacheFlush := hn
      have ha : asks (comb p s.core (answers s.owed i)).n = [encodes p s.core e₀] :=
        congrArg FlushRegs.asks hreg
      rw [Entry.next_of_done hdone]
      refine ⟨fun _ _ => ⟨encodes p s.core e₀, ?_, s.core, rfl⟩, fun _ h => by simp [hst] at h,
        fun _ => by omega⟩
      simp [flushNext, hal, hasked, ha]
    | await hs' => exact (hs' hlatch).elim
    | settle _ hs' => exact (hs' hlatch).elim
  | head hk hs hdone =>
    have hhead : s.core.rob[0]? = some e := hk ▸ he
    obtain ⟨es, hrob⟩ := rob_head hhead
    have hasked := hheard.head hk hs
    have hn := asked_next (asks_nil h (by obtain hs | hs := hs <;> simp [hs])) hal
    have hst : (flushNext p s i).core.regs.state = .active ∨
        (flushNext p s i).core.regs.state = .cacheFlush := by
      obtain hs | hs := hs
      · exact .inl (serial_head_state h.sane.rob hs hrob (e.uop.ok.serializing hser) (by omega))
      · exact cacheFlush_state hs hrob
    rw [Entry.next_of_done hdone]
    refine ⟨fun _ _ => by rw [hn]; exact hasked, fun _ h => ?_, fun _ => by omega⟩
    obtain hst | hst := hst <;> simp [hst] at h
  | slot b hk hb hmis hs =>
    have hasked : s.asked = [] := by
      refine hheard.slot hk ?_
      obtain hs | ⟨hs, -⟩ := hs
      · exact .inl hs
      · exact .inr hs
    have hn := asked_next (asks_nil h (by obtain hs | ⟨hs, -⟩ := hs <;> simp [hs])) hal
    refine ⟨fun hk0 hst => ?_, fun _ _ => hn.trans hasked, fun _ _ => hn.trans hasked⟩
    -- the slot is the oldest entry only after the branch has retired
    obtain hs | ⟨hs, -⟩ := hs
    · have hstill := comb_still (p := p) (i := answers s.owed i) h.sane.rob h.sane.fits
        (by simp [hs, FsmState.still])
      simp [leaving, hstill.retire, hstill.bumpRobHead, hk0] at hk
    · obtain ⟨f, bs, hrob⟩ : ∃ f bs, s.core.rob = b :: f :: bs := by
        obtain ⟨bs, hrob⟩ := rob_head hb
        cases bs with
        | nil => simp [hrob, hk] at he
        | cons f bs => exact ⟨f, bs, hrob⟩
      obtain ⟨hl, -⟩ | ⟨-, hd⟩ :=
        slot_state (p := p) (i := answers s.owed i) hs hrob hmis
      · omega
      · change (next p s.core (answers s.owed i)).regs.state = _ ∨
          (next p s.core (answers s.owed i)).regs.state = _ at hst
        simp [hd] at hst
  | drain hk hs hdone =>
    have hasked := hheard.alone hk (.inr hs)
    have hn := asked_next (asks_nil h (by simp [hs])) hal
    refine ⟨fun _ hst => ?_, fun _ _ => hn.trans hasked, fun _ => by omega⟩
    have hd := state_next (p := p) (i := answers s.owed i) h.sane.rob h.sane.fits
    rw [hs] at hd
    change (next p s.core (answers s.owed i)).regs.state = _ ∨
      (next p s.core (answers s.owed i)).regs.state = _ at hst
    obtain hst | hst := hst <;> simp [hst, FsmState.succs] at hd
  | dead hk _ hs =>
    have hd : (flushNext p s i).core.regs.state = .writeEpc ∨
        (flushNext p s i).core.regs.state = .exceptionDrain ∨
        (flushNext p s i).core.regs.state = .rat :=
      dead_state h.sane.rob h.sane.fits hclr hs
    refine ⟨fun _ hst => ?_, fun _ hst => ?_, fun _ hst => ?_⟩ <;>
      obtain hd | hd | hd := hd <;> simp [hd] at hst

theorem heard_next (h : FlushInv p s) {k : Nat} {e' : Entry}
    (he : (flushNext p s i).core.rob[k]? = some e') (hop : e'.uop.op.flushes = true) :
    Heard p (flushNext p s i) k e' := by
  have he' := he
  simp only [flushNext, next, nextRob] at he'
  split at he'
  · cases he'
  next hclr =>
    rw [List.getElem?_append] at he'
    split at he'
    next hk =>
      obtain ⟨e, hg, rfl⟩ := kept_getElem? he'
      rw [Entry.next_uop] at hop
      exact heard_kept h (by simpa using hclr) hg hop
    next hk =>
      have hnew := List.mem_of_getElem? he'
      obtain ⟨u, d, t, rfl, ha, hu⟩ := mem_newEntries hnew
      obtain ⟨hs, -⟩ :=
        new_serial h.sane.rob h.sane.fits ha hu (Op.flushes_serializing u hop)
      have hal : allocsSerial p s.core (answers s.owed i) = true := by
        obtain hs | hs := hs <;> simp [allocsSerial, ha, hs]
      have hasked : (flushNext p s i).asked = [] := by simp [flushNext, hal]
      have hst : (flushNext p s i).core.regs.state = .waitForSerializeAndRestart ∨
          (flushNext p s i).core.regs.state = .waitForSerializeInFaultedDelaySlot := by
        obtain hs | hs := hs
        · obtain hc | ⟨-, hc⟩ := alone_turn (p := p) (i := answers s.owed i) (.inl ⟨hs, rfl⟩)
          · simp [hc, finish] at ha
          · exact .inl (by simp [flushNext, next, hc, finish])
        · obtain hc | ⟨-, hc⟩ := alone_turn (p := p) (i := answers s.owed i) (.inr ⟨hs, rfl⟩)
          · simp [hc, finish] at ha
          · exact .inr (by simp [flushNext, next, hc, finish])
      refine ⟨fun _ h => ?_, fun _ _ => hasked, fun _ _ => hasked⟩
      obtain hst | hst := hst <;> simp [hst] at h

theorem flushInv_next (h : FlushInv p s) : FlushInv p (flushNext p s i) where
  sane := sane_next h.sane
  placed := placed_next h.sane.rob h.sane.fits h.placed
  settled := (latch_next h).1
  latched := (latch_next h).2
  heard := fun _ _ => heard_next h
  pending := fun _ => waits_pending h
  counted := counted_next h

/-- The requests of a cycle are the first of the operation at the head. -/
theorem fresh_of (h : FlushInv p s) (hne : asks (comb p s.core (answers s.owed i)).n ≠ []) :
    s.asked = [] ∧ Settled s ∧ ∃ e, s.core.rob = [e] ∧ e.uop.op.flushes = true ∧
      (e.uop.op.isXflush = true → IsPending s.core e.uop.op) ∧
      asks (comb p s.core (answers s.owed i)).n = [encodes p s.core e] := by
  have hturn := flush_cases (p := p) (i := answers s.owed i) h.sane
  cases hturn with
  | keep _ _ hreg => exact (hne (congrArg FlushRegs.asks hreg)).elim
  | ask e hs hrob hdone hop hn hreg =>
    have hhead : s.core.rob[0]? = some e := by simp [hrob]
    refine ⟨(h.heard 0 e hhead hop).alone rfl (.inl hs), h.settled ?_, e, hrob, hop, ?_,
      congrArg FlushRegs.asks hreg⟩
    · rw [hs]
      exact ⟨nofun, nofun⟩
    · exact h.pending e.uop (.inr ⟨.inl hs, e, hhead, rfl⟩)
  | await _ _ hreg => exact (hne (congrArg FlushRegs.asks hreg)).elim
  | settle _ _ _ _ _ hreg => exact (hne (congrArg FlushRegs.asks hreg)).elim

/-- The restart after a flush. -/
theorem answered_of (h : FlushInv p s) (hs : s.core.regs.state = .cacheFlush)
    (hr : (comb p s.core (answers s.owed i)).n.restartValid = true) :
    (flushNext p s i).owed = .none ∧ ∃ e q, s.core.rob = [e] ∧ s.asked = [q] ∧ Encodes p e q ∧
      (e.uop.op.isXflush = true →
        (comb p s.core (answers s.owed i)).n.restartPc = e.uop.pc) := by
  have hfits := h.sane.fits
  simp only [Fits, hs] at hfits
  obtain ⟨e, hrob, hdone, hop⟩ := hfits
  have hlatch : ¬ s.core.regs.state.unlatched := fun h => h.1 hs
  have hall : allFlushed (tick s.core (answers s.owed i)) = true := by
    have hturn := flush_cases (p := p) (i := answers s.owed i) h.sane
    cases hturn with
    | keep hs' => exact (hlatch hs').elim
    | ask _ hs' => simp [hs] at hs'
    | await _ _ _ hrestart => exact hrestart hr
    | settle _ _ _ _ hall => exact hall
  have ha := asks_nil (p := p) (i := i) h (by simp [hs])
  obtain ⟨q, hq, henc⟩ :=
    (h.heard 0 e (by simp [hrob]) (by simpa [Op.flushes] using hop)).head rfl (.inr hs)
  refine ⟨owed_settle (h.latched hlatch) hall ha, e, q, hrob, hq, henc, fun hx => ?_⟩
  have hcomb : comb p s.core (answers s.owed i) =
      finish s.core (cacheFlush s.core (tick s.core (answers s.owed i))) := by
    simp [comb, arm, hs]
  have hturn := flush_turn hrob (tick s.core (answers s.owed i))
  revert hcomb
  generalize cacheFlush s.core (tick s.core (answers s.owed i)) = c at hturn
  intro hcomb
  cases hturn with
  | wait hno => simp [hall] at hno
  | restart => simp [hcomb, finish, restartAfter, hx]
  | resume _ _ n hn => simp [hcomb, finish, restartAfter, hn, hx]

/-- What retires in `ACTIVE` has been served. -/
theorem served_active (h : FlushInv p s) (hs : s.core.regs.state = .active) {e : Entry}
    (he : e ∈ retiring s.core (comb p s.core (answers s.owed i)))
    (hop : e.uop.op.flushes = true) : Served p s e := by
  have hser := Op.flushes_serializing e.uop hop
  obtain ⟨ho, -⟩ := h.settled (by rw [hs]; exact ⟨nofun, nofun⟩)
  suffices hhead : s.core.rob[0]? = some e from
    ⟨ho, (h.heard 0 e hhead hop).head rfl (.inl hs)⟩
  unfold retiring at he
  split at he
  next =>
    split at he
    next htwo =>
      -- the second of two that retire is not the slot of a mispredicted branch
      obtain ⟨b₀, bs₀, hrob₀, -, hclean⟩ := retireTwo_head hs htwo
      obtain ⟨k, hk⟩ := List.mem_iff_getElem?.mp he
      rw [List.getElem?_take] at hk
      split at hk
      next hlt =>
        obtain rfl | rfl : k = 0 ∨ k = 1 := by omega
        · exact hk
        · have hseat := h.placed 1 e hk hser
          cases hseat with
          | slot b _ hb hmis =>
            obtain rfl : b₀ = b := by simpa [hrob₀] using hb
            simp [hmis.faulted] at hclean
          | dead _ _ hst => simp [hs] at hst
          | alone hk0 => omega
          | head hk0 => omega
          | drain hk0 => omega
      next => cases hk
    next =>
      cases hrob : s.core.rob with
      | nil => simp [hrob] at he
      | cons b bs =>
        obtain rfl : e = b := by simpa [hrob] using he
        rfl
  next => cases he

end Invariant

/-- `DRAIN` is about to retire a cache operation. -/
def cacheSlot (s : State) : Bool :=
  decide (s.regs.state = .drain) && !s.regs.dsDone &&
    (!s.regs.hasNullifyingDelaySlot || s.regs.takeBr) &&
    s.rob[0]?.any fun e => e.uop.op.flushes

section Law

variable {p : Params} {s : FlushState} {i : Input}

theorem cacheSlot_spec (hs : cacheSlot s.core = true) : s.core.regs.state = .drain ∧
    s.core.regs.dsDone = false ∧
    (s.core.regs.hasNullifyingDelaySlot = true → s.core.regs.takeBr = true) ∧
    ∃ e es, s.core.rob = e :: es ∧ e.uop.op.flushes = true := by
  simp only [cacheSlot, Bool.and_eq_true, Bool.or_eq_true, Bool.not_eq_true',
    decide_eq_true_eq] at hs
  obtain ⟨⟨⟨hst, hds⟩, hbr⟩, hop⟩ := hs
  cases hrob : s.core.rob with
  | nil => simp [hrob] at hop
  | cons e es =>
    refine ⟨hst, hds, fun hn => hbr.resolve_left (by simp [hn]), e, es, rfl, ?_⟩
    simpa [hrob] using hop

/-- The cache operation that `DRAIN` retires was never flushed. -/
theorem not_flushOk (h : FlushInv p s) (hs : cacheSlot s.core = true) : ¬ FlushOk p s i := by
  obtain ⟨hst, hds, hbr, e, es, hrob, hop⟩ := cacheSlot_spec hs
  intro hok
  have hser := Op.flushes_serializing e.uop hop
  have hq := (h.sane.rob e (by simp [hrob])).quiet (e.uop.ok.serializing hser)
  have hseat := h.placed 0 e (by simp [hrob]) hser
  have hdone : e.done = true := by
    cases hseat with
    | drain _ _ hdone => exact hdone
    | alone _ hs' => simp [hst] at hs'
    | head _ hs' => simp [hst] at hs'
    | slot _ hk => omega
    | dead _ _ hs' => simp [hst] at hs'
  have hretire : (comb p s.core (answers s.owed i)).retire = true ∧
      (comb p s.core (answers s.owed i)).retireTwo = false := by
    have hfits := h.sane.fits
    simp only [Fits, hst] at hfits
    have hslot := (hfits hds).1
    have harch := archFault_of_faulted hq
    cases hn : s.core.regs.hasNullifyingDelaySlot with
    | false =>
      simp [comb, arm, hst, finish, drain, drainHead, drainSlot, hrob, hds, hdone, hslot, harch, hn]
    | true =>
      have hb := hbr hn
      simp [comb, arm, hst, finish, drain, drainHead, drainSlot, hrob, hds, hdone, harch, hn, hb]
  have hmem : e ∈ retiring s.core (comb p s.core (answers s.owed i)) := by
    simp [retiring, hretire.1, hretire.2, hrob]
  obtain ⟨-, q, hasked, -⟩ := hok.performed e hmem hop
  rw [(h.heard 0 e (by simp [hrob]) hop).alone rfl (.inr hst)] at hasked
  cases hasked

/-- What retires has been served. -/
theorem served_of (h : FlushInv p s) (hs : cacheSlot s.core = false) {e : Entry}
    (he : e ∈ retiring s.core (comb p s.core (answers s.owed i)))
    (hop : e.uop.op.flushes = true) : Served p s e := by
  have hr : (comb p s.core (answers s.owed i)).retire = true := by
    unfold retiring at he
    split at he
    next hr => exact hr
    next => cases he
  obtain hst | hst := retire_state h.sane.rob h.sane.fits hr
  · exact served_active h hst he hop
  · exfalso
    obtain ⟨htwo, hds, hbr⟩ := drain_retire hst hr
    obtain ⟨es, hrob⟩ : ∃ es, s.core.rob = e :: es := by
      cases hrob : s.core.rob with
      | nil => simp [retiring, hr, htwo, hrob] at he
      | cons f fs =>
        simp only [retiring, hr, htwo, hrob, if_true, Bool.false_eq_true, if_false,
          List.take_succ_cons, List.take_zero, List.mem_singleton] at he
        exact ⟨fs, by rw [he]⟩
    have hnull : (!s.core.regs.hasNullifyingDelaySlot || s.core.regs.takeBr) = true := by
      cases hn : s.core.regs.hasNullifyingDelaySlot with
      | false => rfl
      | true => simp [hbr hn]
    simp [cacheSlot, hst, hds, hnull, hrob, hop] at hs

/-- A pending request is not replaced by another. -/
theorem held_of (h : FlushInv p s) (hp : s.core.regs.xflushPend = true) :
    (flushNext p s i).core.regs.xflushPpn = s.core.regs.xflushPpn ∧
      xflushOp (flushNext p s i).core.regs = xflushOp s.core.regs := by
  have fixed {r : FlushRegs} (hreg : (comb p s.core (answers s.owed i)).n.flush = r)
      (hppn : r.ppn = (tick s.core (answers s.owed i)).n.xflushPpn)
      (hw : r.whole = (tick s.core (answers s.owed i)).n.xflushWhole)
      (hd : r.drop = (tick s.core (answers s.owed i)).n.xflushDrop) :
      (flushNext p s i).core.regs.xflushPpn = s.core.regs.xflushPpn ∧
        xflushOp (flushNext p s i).core.regs = xflushOp s.core.regs := by
    have h1 : (flushNext p s i).core.regs.xflushPpn = r.ppn := congrArg FlushRegs.ppn hreg
    have h2 : (flushNext p s i).core.regs.xflushWhole = r.whole := congrArg FlushRegs.whole hreg
    have h3 : (flushNext p s i).core.regs.xflushDrop = r.drop := congrArg FlushRegs.drop hreg
    rw [h1, hppn, xflushOp, xflushOp, h2, h3, hw, hd]
    simp [tick, hp]
  have hturn := flush_cases (p := p) (i := answers s.owed i) h.sane
  cases hturn with
  | keep _ _ hreg => exact fixed hreg rfl rfl rfl
  | ask _ _ _ _ _ _ hreg => exact fixed hreg rfl rfl rfl
  | await _ _ hreg => exact fixed hreg rfl rfl rfl
  | settle _ _ _ _ _ hreg => exact fixed hreg rfl rfl rfl

theorem reported_of (h : FlushInv p s)
    (hd : (comb p s.core (answers s.owed i)).n.xflushDone = true) :
    ∃ e, s.core.rob = [e] ∧ e.uop.op.isXflush = true ∧ s.core.regs.state = .cacheFlush ∧
      (next p s.core (answers s.owed i)).regs.state = .active := by
  have off {r : FlushRegs} (hreg : (comb p s.core (answers s.owed i)).n.flush = r) :
      r.done = true := (congrArg FlushRegs.done hreg).symm.trans hd
  have hturn := flush_cases (p := p) (i := answers s.owed i) h.sane
  cases hturn with
  | keep _ _ hreg => cases off hreg
  | ask _ _ _ _ _ _ hreg => cases off hreg
  | await _ _ hreg => cases off hreg
  | settle x _ _ _ _ hreg hx =>
    obtain ⟨hs, -, hst, e, hrob, hex⟩ := hx (off hreg)
    exact ⟨e, hrob, hex, hs, hst⟩

theorem flushOk_of (h : FlushInv p s) (hs : cacheSlot s.core = false) : FlushOk p s i where
  fresh := fresh_of h
  answered := answered_of h
  performed := fun _ => served_of h hs
  counted := h.counted
  held := held_of h
  reported := reported_of h

end Law

/-- In every state of every run, the next cycle keeps the law of the flushes if and only if
it does not retire a cache operation from `DRAIN`. -/
theorem flushes_performed (p : Params) (is : List Input) (i : Input) :
    FlushOk p (Hw.run (flushNext p) flushReset is) i ↔
      cacheSlot (Hw.run (flushNext p) flushReset is).core = false := by
  have hinv : FlushInv p (Hw.run (flushNext p) flushReset is) :=
    Hw.run_invariant (fun _ _ => flushInv_next) (flushInv_reset p) is
  refine ⟨fun hok => ?_, flushOk_of hinv⟩
  cases hs : cacheSlot (Hw.run (flushNext p) flushReset is).core with
  | false => rfl
  | true => exact (not_flushOk hinv hs hok).elim

/-- A mispredicted branch with a `CACHE` operation on the L1D in its delay slot. -/
def cacheInSlot : List Input :=
  boot ++
    [{ quiet with
       insn := some ⟨.branch false 0x1000, true, false, Uop.branch_own⟩
       insnTwo := some ⟨.serial .cacheOp rfl true false 0x1004, false, false, by decide⟩ },
     quiet, { quiet with start := some 0 },
     { quiet with intDone := some (0, IntResult.of true 0x2000 true 0) },
     quiet, quiet, { quiet with start := some 1 },
     { quiet with intDone := some (1, IntResult.of false 0x1008 false 0x8000) },
     quiet, quiet]

/-- The operation is about to retire from `DRAIN` and no flush was ever asked for. -/
theorem cache_slot_skips_flush : ¬ ∀ (p : Params) (is : List Input) (i : Input),
    FlushOk p (Hw.run (flushNext p) flushReset is) i := by
  intro h
  have hinv : FlushInv machine (Hw.run (flushNext machine) flushReset cacheInSlot) :=
    Hw.run_invariant (fun _ _ => flushInv_next) (flushInv_reset machine) cacheInSlot
  exact not_flushOk hinv (by decide +kernel) (h machine cacheInSlot quiet)

end Core

end R9999
