import Mathlib.Data.List.Induction
import R9999.Hw.Run
import R9999.L1d.Order

/-!
# The L1D after reset

What the walk of `INIT_CACHE` leaves of the valid and dirty RAMs, which reset does not
clear: it ends at the last set without writing it.  Nothing is assumed of the inputs, not
even that the L2 only answers what it was asked.
-/

namespace R9999

namespace L1d

open Hw (run run_append)

variable {g : Geometry} {s : L1d} {i : Input} {c : Comb}

/-! ## A lookup on port 1 -/

theorem port2_gotReq : (port2 g s i (combDefault s i)).n.gotReq = false := by
  rcases base_or_fill g s i with hb | ⟨-, -, -, he⟩
  · rw [hb.n]
    rfl
  · rw [he]
    rfl

theorem port2_markInvalid : (port2 g s i (combDefault s i)).markInvalid = false := by
  rcases base_or_fill g s i with hb | ⟨-, -, -, he⟩
  · exact hb.markInvalid
  · rw [he]
    rfl

/-- Port 2 only leaves the state when the miss queue is empty. -/
theorem port2_state (hm : s.mq ≠ []) :
    (port2 g s i (combDefault s i)).n.state = s.regs.state := by
  rcases base_or_fill g s i with hb | ⟨hf, -, -, -⟩
  · rw [hb.n]
    rfl
  · exact absurd (directFillOk_iff hf).2.2.2.1 hm

theorem port1_gotReq : (port1 g s i c).n.gotReq = c.n.gotReq := by
  simp only [port1, chopReq, uncachedReq, hitReq, dirtyMiss, cleanMiss, send, apply_ite Comb.n,
    apply_ite Regs.gotReq, ite_self]

/-- Port 1 misses, or drops nothing and stays where it is. -/
theorem port1_miss_or :
    (port1 g s i c).gotMiss = true ∨
      (port1 g s i c).markInvalid = c.markInvalid ∧ (port1 g s i c).n.state = c.n.state := by
  unfold port1
  dsimp only
  split
  case isFalse => exact .inr ⟨rfl, rfl⟩
  case isTrue =>
    split
    · left
      simp only [chopReq, send, apply_ite Comb.gotMiss, ite_self]
    split
    · exact .inr ⟨rfl, rfl⟩
    split
    · left
      simp only [uncachedReq, send, apply_ite Comb.gotMiss, ite_self]
    split
    · right
      simp only [hitReq, apply_ite Comb.markInvalid, apply_ite Comb.n, apply_ite Regs.state,
        ite_self, and_self]
    split
    · left
      simp only [dirtyMiss, send, apply_ite Comb.gotMiss, ite_self]
    · left
      simp only [cleanMiss, send, apply_ite Comb.gotMiss, ite_self]

theorem startFlush_gotReq : (startFlush g s i c).n.gotReq = c.n.gotReq := by
  simp only [startFlush, apply_ite Comb.n, apply_ite Regs.gotReq, ite_self]

theorem startFlush_markInvalid : (startFlush g s i c).markInvalid = c.markInvalid := by
  simp only [startFlush, apply_ite Comb.markInvalid, ite_self]

/-- A flush only starts when the miss queue is empty. -/
theorem startFlush_state (hm : s.mq ≠ []) : (startFlush g s i c).n.state = c.n.state := by
  have hd : drained s i = false := by
    unfold drained
    rw [List.isEmpty_eq_false_iff.mpr hm]
    simp only [Bool.false_and]
  simp only [startFlush, hd, Bool.and_false, Bool.false_eq_true, if_false]

/-- In `ACTIVE` the lookup is that of the head of the miss queue. -/
theorem active_looks (hs : s.regs.state = .active)
    (h : (active g s i (port2 g s i (combDefault s i))).n.gotReq = true) :
    (active g s i (port2 g s i (combDefault s i))).markInvalid = false ∧
      (active g s i (port2 g s i (combDefault s i))).n.state = .active ∧
      prbPend s.regs i = false := by
  have hc := mqHead_cases g s i (port1 g s i (port2 g s i (combDefault s i)))
  have hgot : (port1 g s i (port2 g s i (combDefault s i))).n.gotReq = false :=
    port1_gotReq.trans port2_gotReq
  unfold active at h ⊢
  dsimp only at h ⊢
  generalize hm : mqHead g s i (port1 g s i (port2 g s i (combDefault s i))) = m at h hc ⊢
  have hfired : m.n.gotReq = true := by
    simp only [apply_ite Comb.n, apply_ite Regs.gotReq, startFlush_gotReq, ite_self] at h
    exact h
  cases hc with
  | keep =>
    rw [hgot] at hfired
    cases hfired
  | drop =>
    have hstill : (port1 g s i (port2 g s i (combDefault s i))).n.gotReq = true := hfired
    rw [hgot] at hstill
    cases hstill
  | fire e tl rd hq hmiss hp =>
    have hne : s.mq ≠ [] := by
      rw [hq]
      exact List.cons_ne_nil e tl
    obtain ⟨hmark, hstate⟩ := port1_miss_or.resolve_left (Bool.eq_false_iff.mp hmiss)
    rw [port2_markInvalid] at hmark
    rw [port2_state hne, hs] at hstate
    rw [if_neg (by rw [hp]; exact Bool.false_ne_true)]
    refine ⟨?_, ?_, hp⟩
    · simp only [apply_ite Comb.markInvalid, startFlush_markInvalid, ite_self]
      exact hmark
    · simp only [apply_ite Comb.n, apply_ite Regs.state, startFlush_state hne, ite_self]
      exact hstate

/-- The states that look a request up on port 1. -/
def looksUp : State → Bool
  | .active | .uncacheWb | .handleReload => true
  | _ => false

theorem combState_gotReq (hs : looksUp s.regs.state = false) :
    (combState g s i c).n.gotReq = c.n.gotReq := by
  cases h : s.regs.state with
  | active | uncacheWb | handleReload =>
    rw [h] at hs
    cases hs
  | _ =>
    simp only [combState, h, injectReload, flushCl, flushClWait, flushPg, flushPgWait,
      flushCache, probeChk, send, apply_ite Comb.n, apply_ite Regs.gotReq, ite_self]

theorem combState_looks
    (h : (combState g s i (port2 g s i (combDefault s i))).n.gotReq = true) :
    (combState g s i (port2 g s i (combDefault s i))).markInvalid = false ∧
      (combState g s i (port2 g s i (combDefault s i))).n.state = .active ∧
      looksUp s.regs.state = true ∧ (s.regs.state = .active → prbPend s.regs i = false) := by
  cases hs : s.regs.state with
  | active =>
    simp only [combState, hs] at h ⊢
    obtain ⟨hmark, hstate, hp⟩ := active_looks hs h
    exact ⟨hmark, hstate, rfl, fun _ => hp⟩
  | uncacheWb =>
    have hgot := port2_gotReq (g := g) (s := s) (i := i)
    simp only [combState, hs, refire] at h ⊢
    split at h
    case isTrue hd =>
      rw [if_pos hd]
      exact ⟨port2_markInvalid, rfl, rfl, (fun h => by cases h)⟩
    case isFalse hd =>
      rw [hgot] at h
      cases h
  | handleReload =>
    simp only [combState, hs, refire]
    exact ⟨port2_markInvalid, trivial, rfl, (fun h => by cases h)⟩
  | _ =>
    have hlooks : looksUp s.regs.state = false := by rw [hs]; rfl
    rw [combState_gotReq hlooks, port2_gotReq] at h
    cases h

/-- A lookup that the cycle starts reads a set that the cycle does not drop. -/
theorem comb_looks (h : (comb g s i).n.gotReq = true) :
    (comb g s i).markInvalid = false ∧ (comb g s i).n.state = .active ∧
      fill s.regs i = false := by
  have hrest : (combState g s i (port2 g s i (combDefault s i))).n.gotReq = true := by
    simp only [comb, acceptPort2, takeProbe, apply_ite Comb.n, apply_ite Regs.gotReq,
      ite_self] at h
    exact h
  obtain ⟨hmark, hstate, hlooks, hp⟩ := combState_looks hrest
  have hfill : fill s.regs i = false := by
    refine fill_of_state fun hs => ?_
    rw [hs] at hlooks
    cases hlooks
  refine ⟨?_, ?_, hfill⟩
  · simp only [comb, acceptPort2, takeProbe, apply_ite Comb.markInvalid, ite_self]
    exact hmark
  · -- a state that a probe interrupts would have had to stay
    have hnot : takeProbe g s.regs i (combState g s i (port2 g s i (combDefault s i))) =
        combState g s i (port2 g s i (combDefault s i)) := by
      unfold takeProbe
      refine if_neg ?_
      simp only [Bool.and_eq_true, not_and, beq_iff_eq]
      intro hprb _
      have heq := hprb.2
      rw [hstate] at heq
      have hpend := hprb.1.1.1.1
      rw [hp heq.symm] at hpend
      cases hpend
    simp only [comb, hnot, acceptPort2, apply_ite Comb.n, apply_ite Regs.state, ite_self]
    exact hstate

/-! ## A dirty set is valid -/

/-- The port-1 lookup is one in `ACTIVE`, and what it read of a valid set is still there. -/
structure Fresh (s : L1d) : Prop where
  state : s.regs.gotReq = true → s.regs.state = .active
  valid : s.regs.gotReq = true → s.out.valid = true → (s.arr s.regs.cacheIdx).valid = true

/-- A set that a cycle does not drop stays valid. -/
theorem writeEntry_valid (hm : c.markInvalid = false) (hf : fill s.regs i = false) (j : Nat) :
    (writeEntry g s i c j).valid = (s.arr j).valid := by
  simp only [writeEntry, hm, hf, Bool.false_eq_true, if_false]

theorem fresh_next (g : Geometry) (s : L1d) (i : Input) : Fresh (s.next g i) where
  state h := (comb_looks h).2.1
  valid h hv := by
    obtain ⟨hmark, -, hfill⟩ := comb_looks h
    have hv' : (s.arr (comb g s i).n.cacheIdx).valid = true := hv
    show (writeEntry g s i (comb g s i) (comb g s i).n.cacheIdx).valid = true
    rw [writeEntry_valid hmark hfill]
    exact hv'

/-- A store is performed in a valid set. -/
theorem wrArray_valid (hs : Fresh s) (hw : wrArray s.regs s.out = true) :
    (s.arr s.regs.cacheIdx).valid = true := by
  simp only [wrArray, hitCache, tagHit, Bool.and_eq_true] at hw
  exact hs.valid hw.1.1.2.1.2 hw.1.1.2.1.1.1

/-- A clock edge keeps what is dirty valid. -/
theorem dirtyValid_next (hs : Fresh s) {j : Nat}
    (h : (s.arr j).dirty = true → (s.arr j).valid = true)
    (hd : ((s.next g i).arr j).dirty = true) : ((s.next g i).arr j).valid = true := by
  have hd' : (writeEntry g s i (comb g s i) j).dirty = true := hd
  show (writeEntry g s i (comb g s i) j).valid = true
  simp only [writeEntry] at hd' ⊢
  by_cases hm : (comb g s i).markInvalid = true
  · simp only [hm, if_true] at hd' ⊢
    by_cases hj : j = s.regs.cacheIdx
    · rw [if_pos hj] at hd'
      cases hd'
    · rw [if_neg hj] at hd' ⊢
      exact h hd'
  · simp only [if_neg hm] at hd' ⊢
    by_cases hf : fill s.regs i = true
    · simp only [hf, if_true] at hd' ⊢
      by_cases hj : j = s.regs.memReq.idx
      · rw [if_pos hj] at hd'
        cases hd'
      · rw [if_neg hj] at hd' ⊢
        exact h hd'
    · simp only [if_neg hf] at hd' ⊢
      by_cases hw : wrArray s.regs s.out = true
      · by_cases hj : j = s.regs.cacheIdx
        · rw [hj]
          exact wrArray_valid hs hw
        · rw [if_pos hw, if_neg hj] at hd'
          exact h hd'
      · rw [if_neg hw] at hd'
        exact h hd'

/-- A run keeps it. -/
theorem dirtyValid_run (hs : Fresh s) {j : Nat}
    (h : (s.arr j).dirty = true → (s.arr j).valid = true) (is : List Input) :
    ((run (next g) s is).arr j).dirty = true → ((run (next g) s is).arr j).valid = true := by
  have hstep (s : L1d) (i : Input)
      (h : Fresh s ∧ ((s.arr j).dirty = true → (s.arr j).valid = true)) :
      Fresh (next g s i) ∧
        (((next g s i).arr j).dirty = true → ((next g s i).arr j).valid = true) :=
    ⟨fresh_next g s i, dirtyValid_next h.1 h.2⟩
  exact (Hw.run_invariant hstep ⟨hs, h⟩ is).2

/-! ## The walk -/

/-- The L1D at the release of a reset: the RAMs, their outputs and the registers that reset
leaves alone hold what they held. -/
def warmReset (s : L1d) : L1d where
  regs :=
    { resetRegs with
      req := s.regs.req
      reqIdx := s.regs.reqIdx
      req2 := s.regs.req2
      arrayWrData := s.regs.arrayWrData
      hitBusyAddr := s.regs.hitBusyAddr
      hitBusyAddr2 := s.regs.hitBusyAddr2
      fillConflict2 := s.regs.fillConflict2
      fillLine := s.regs.fillLine
      rspLine := s.regs.rspLine }
  arr := s.arr
  out := s.out
  out2 := s.out2
  mq := []
  sb := s.sb

/-- The walk has reached a set: those below it are empty, and the others are as they
were. -/
structure Walking (g : Geometry) (arr : Nat → L1dEntry) (k : Nat) (s : L1d) : Prop where
  state : s.regs.state = .initCache
  cacheIdx : s.regs.cacheIdx = k
  le : k < g.l1Sets
  gotReq : s.regs.gotReq = false
  below : ∀ j < k, (s.arr j).valid = false ∧ (s.arr j).dirty = false
  above : ∀ j, k ≤ j → (s.arr j).valid = (arr j).valid ∧ (s.arr j).dirty = (arr j).dirty

/-- `ACTIVE` at the end of the walk: the last set is as it was. -/
structure WalkDone (g : Geometry) (arr : Nat → L1dEntry) (s : L1d) : Prop where
  state : s.regs.state = .active
  gotReq : s.regs.gotReq = false
  below : ∀ j < g.l1Sets - 1, (s.arr j).valid = false ∧ (s.arr j).dirty = false
  last : (s.arr (g.l1Sets - 1)).valid = (arr (g.l1Sets - 1)).valid ∧
    (s.arr (g.l1Sets - 1)).dirty = (arr (g.l1Sets - 1)).dirty

/-- In a state that only walks, nothing but the walk happens. -/
theorem comb_walk {t : State} (hs : s.regs.state = t) (ht : t = .init ∨ t = .initCache) :
    comb g s i = combState g s i (combDefault s i) := by
  have hport : port2 g s i (combDefault s i) = combDefault s i := by
    unfold port2
    rcases ht with rfl | rfl <;> simp [hs]
  have hprobe : prbOkState s.regs = false := by
    unfold prbOkState
    rcases ht with rfl | rfl <;> rw [hs]
  have hacc : (combState g s i (combDefault s i)).p2Accept = false := by
    rcases ht with rfl | rfl <;> simp only [combState, hs, apply_ite Comb.p2Accept] <;> simp [combDefault]
  unfold comb
  rw [hport]
  unfold takeProbe
  rw [hprobe]
  simp only [Bool.and_false, Bool.false_eq_true, if_false, acceptPort2, hacc]

theorem walking_start (s : L1d) (i : Input) : Walking g s.arr 0 (s.warmReset.next g i) := by
  have hcomb : comb g s.warmReset i = _ := comb_walk (t := .init) rfl (.inl rfl)
  have hw : wrArray s.warmReset.regs s.warmReset.out = false := wrArray_of_noReq rfl
  have harr (j : Nat) : (s.warmReset.next g i).arr j = s.arr j := by
    show writeEntry g s.warmReset i (comb g s.warmReset i) j = s.arr j
    rw [hcomb, writeEntry_keep (fill_of_state State.noConfusion) hw rfl]
    rfl
  refine ⟨?_, ?_, g.l1Sets_pos, ?_, fun j hj => absurd hj (Nat.not_lt_zero j), fun j _ => ?_⟩
  · show (comb g s.warmReset i).n.state = _
    rw [hcomb]
    rfl
  · show (comb g s.warmReset i).n.cacheIdx = _
    rw [hcomb]
    rfl
  · show (comb g s.warmReset i).n.gotReq = _
    rw [hcomb]
    rfl
  · rw [harr]
    exact ⟨rfl, rfl⟩

/-- A cycle of the walk drops its set. -/
theorem walking_next {arr : Nat → L1dEntry} {k : Nat} (h : Walking g arr k s)
    (hk : k + 1 < g.l1Sets) (i : Input) : Walking g arr (k + 1) (s.next g i) := by
  have hne : ¬ s.regs.cacheIdx = g.l1Sets - 1 := by
    rw [h.cacheIdx]
    omega
  have hcomb : comb g s i = { combDefault s i with
      markInvalid := true
      n := { (combDefault s i).n with cacheIdx := l1Succ g s.regs.cacheIdx } } := by
    rw [comb_walk h.state (.inr rfl)]
    simp only [combState, h.state, if_neg hne]
  have harr (j : Nat) : ((s.next g i).arr j).valid = (if j = k then false else (s.arr j).valid) ∧
      ((s.next g i).arr j).dirty = (if j = k then false else (s.arr j).dirty) := by
    show (writeEntry g s i (comb g s i) j).valid = _ ∧ (writeEntry g s i (comb g s i) j).dirty = _
    rw [hcomb, ← h.cacheIdx]
    exact ⟨rfl, rfl⟩
  refine ⟨?_, ?_, hk, ?_, fun j hj => ?_, fun j hj => ?_⟩
  · show (comb g s i).n.state = _
    rw [hcomb]
    exact h.state
  · show (comb g s i).n.cacheIdx = _
    rw [hcomb, h.cacheIdx]
    exact Nat.mod_eq_of_lt hk
  · show (comb g s i).n.gotReq = _
    rw [hcomb]
    rfl
  · obtain ⟨hvalid, hdirty⟩ := harr j
    rw [hvalid, hdirty]
    by_cases heq : j = k
    · rw [if_pos heq, if_pos heq]
      exact ⟨rfl, rfl⟩
    · rw [if_neg heq, if_neg heq]
      exact h.below j (by omega)
  · obtain ⟨hvalid, hdirty⟩ := harr j
    have heq : ¬ j = k := by omega
    rw [hvalid, hdirty, if_neg heq, if_neg heq]
    exact h.above j (by omega)

/-- The last cycle of the walk drops nothing. -/
theorem walking_last {arr : Nat → L1dEntry} {k : Nat} (h : Walking g arr k s)
    (hk : k + 1 = g.l1Sets) (i : Input) : WalkDone g arr (s.next g i) := by
  have heq : s.regs.cacheIdx = g.l1Sets - 1 := by
    rw [h.cacheIdx]
    omega
  have hcomb : comb g s i = { combDefault s i with
      n :=
        { (combDefault s i).n with
          cacheIdx := l1Succ g s.regs.cacheIdx, state := .active, flushComplete := true } } := by
    rw [comb_walk h.state (.inr rfl)]
    simp only [combState, h.state, if_pos heq]
  have harr (j : Nat) : (s.next g i).arr j = s.arr j := by
    show writeEntry g s i (comb g s i) j = s.arr j
    rw [hcomb, writeEntry_keep (fill_of_state (by rw [h.state]; decide))
      (wrArray_of_noReq h.gotReq) rfl]
  refine ⟨?_, ?_, fun j hj => ?_, ?_⟩
  · show (comb g s i).n.state = _
    rw [hcomb]
  · show (comb g s i).n.gotReq = _
    rw [hcomb]
    rfl
  · rw [harr]
    exact h.below j (by omega)
  · rw [harr]
    exact h.above _ (by omega)

/-- The walk, cycle by cycle. -/
theorem walking_run (s : L1d) (is : List Input) (i : Input) (hk : is.length < g.l1Sets) :
    Walking g s.arr is.length (run (next g) s.warmReset (i :: is)) := by
  induction is using List.reverseRecOn with
  | nil => exact walking_start s i
  | append_singleton is j ih =>
    rw [List.length_append, List.length_singleton] at hk ⊢
    have hwalk := walking_next (ih (by omega)) hk j
    rw [← List.cons_append, run_append]
    exact hwalk

/-- The first time in `ACTIVE` after a reset. -/
def FirstActive (g : Geometry) (s : L1d) (is : List Input) : Prop :=
  (run (next g) s is).regs.state = .active ∧
    ∀ js, js <+: is → js ≠ is → (run (next g) s js).regs.state ≠ .active

/-- The walk takes a cycle a set, and one before it. -/
theorem walkDone_run (s : L1d) {is : List Input} (h : is.length = g.l1Sets + 1) :
    WalkDone g s.arr (run (next g) s.warmReset is) := by
  have hpos := g.l1Sets_pos
  obtain ⟨i, js, rfl⟩ : ∃ i js, is = i :: js := List.exists_cons_of_length_pos (by omega)
  rw [List.length_cons] at h
  rcases List.eq_nil_or_concat js with rfl | ⟨ks, j, rfl⟩
  · rw [List.length_nil] at h
    omega
  · rw [List.length_concat] at h
    have hwalk := walking_run (g := g) s ks i (by omega)
    rw [List.concat_eq_append, ← List.cons_append, run_append]
    exact walking_last hwalk (by omega) j

theorem state_ne_active (s : L1d) {is : List Input} (h : is.length ≤ g.l1Sets) :
    (run (next g) s.warmReset is).regs.state ≠ .active := by
  cases is with
  | nil => exact State.noConfusion
  | cons i is =>
    rw [List.length_cons] at h
    rw [(walking_run (g := g) s is i (by omega)).state]
    decide

theorem firstActive_iff (s : L1d) (is : List Input) :
    FirstActive g s.warmReset is ↔ is.length = g.l1Sets + 1 := by
  constructor
  · intro h
    have hlong : g.l1Sets < is.length := Nat.lt_of_not_le fun hle => state_ne_active s hle h.1
    by_contra hne
    -- the walk would have ended before
    have htake : (is.take (g.l1Sets + 1)).length = g.l1Sets + 1 := by
      rw [List.length_take]
      omega
    refine h.2 (is.take (g.l1Sets + 1)) (List.take_prefix _ _) (fun heq => ?_)
      (walkDone_run s htake).state
    rw [heq] at htake
    exact hne htake
  · intro h
    refine ⟨(walkDone_run s h).state, fun js hjs hne => state_ne_active s ?_⟩
    have hlt : js.length < is.length := by
      refine Nat.lt_of_le_of_ne hjs.length_le fun heq => hne (hjs.eq_of_length heq)
    omega

/-! ## What reset leaves -/

/-- The L1D is empty when it first reaches `ACTIVE`, and from then on a dirty set is
valid. -/
structure Empties (g : Geometry) (s : L1d) : Prop where
  empty : ∀ is, FirstActive g s is → ∀ j < g.l1Sets,
    ((run (next g) s is).arr j).valid = false ∧ ((run (next g) s is).arr j).dirty = false
  dirtyValid : ∀ is js, FirstActive g s is → ∀ j < g.l1Sets,
    ((run (next g) s (is ++ js)).arr j).dirty = true →
      ((run (next g) s (is ++ js)).arr j).valid = true

/-- The walk shows what the last set held. -/
theorem last_of_empties (h : Empties g s.warmReset) :
    (s.arr (g.l1Sets - 1)).valid = false ∧ (s.arr (g.l1Sets - 1)).dirty = false := by
  have hpos := g.l1Sets_pos
  have hlength : (List.replicate (g.l1Sets + 1) idleInput).length = g.l1Sets + 1 :=
    List.length_replicate
  have hempty := h.empty _ ((firstActive_iff s _).mpr hlength) (g.l1Sets - 1) (by omega)
  have hlast := (walkDone_run s hlength).last
  rw [hlast.1, hlast.2] at hempty
  exact hempty

/-- Reset leaves an empty L1D exactly where the last set was empty before it. -/
theorem reset_empties_iff (g : Geometry) (s : L1d) :
    Empties g s.warmReset ↔
      (s.arr (g.l1Sets - 1)).valid = false ∧ (s.arr (g.l1Sets - 1)).dirty = false := by
  have hpos := g.l1Sets_pos
  constructor
  · exact last_of_empties
  · intro h
    have hempty : ∀ is, FirstActive g s.warmReset is → ∀ j < g.l1Sets,
        ((run (next g) s.warmReset is).arr j).valid = false ∧
          ((run (next g) s.warmReset is).arr j).dirty = false := by
      intro is hfirst j hj
      have hdone := walkDone_run s ((firstActive_iff s is).mp hfirst)
      by_cases hlast : j = g.l1Sets - 1
      · rw [hlast, hdone.last.1, hdone.last.2]
        exact h
      · exact hdone.below j (by omega)
    refine ⟨hempty, fun is js hfirst j hj => ?_⟩
    have hdone := walkDone_run s ((firstActive_iff s is).mp hfirst)
    have hfresh : Fresh (run (next g) s.warmReset is) := by
      constructor
      · exact fun hgot => absurd (hdone.gotReq ▸ hgot) Bool.false_ne_true
      · exact fun hgot => absurd (hdone.gotReq ▸ hgot) Bool.false_ne_true
    rw [run_append]
    refine dirtyValid_run hfresh (fun hdirty => ?_) js
    rw [(hempty is hfirst j hj).2] at hdirty
    cases hdirty

/-- The smallest L1D, of two sets. -/
def twoSets : Geometry where
  l2Lines := 2
  pgLines := 2
  colours := 1
  mqEntries := 2
  l2Lines_pos := Nat.two_pos
  pgLines_pos := Nat.two_pos
  colours_pos := Nat.one_pos

/-- A reset while the last set has a dirty line: the line survives it. -/
theorem reset_keeps_last :
    ¬ Empties twoSets
      ({ reset (fun _ => 0) (fun _ => Line.zero) with
        arr := fun _ => ⟨true, true, 0, Line.zero⟩ } : L1d).warmReset := by
  intro h
  have hlast := (last_of_empties h).1
  cases hlast

end L1d

end R9999
