import R9999.Frontend.Stream

/-!
# The answers to the restarts

What decode takes in `ACTIVE` was fetched for the last restart that the core asked for, and
behind a restart the first that it takes is at its address.  A restart that is asked for
waits until it is acknowledged, for at most three cycles besides those in which the fetch
unit waits for a line or for the end of a clear.

It fails where `RAT` goes on with the acknowledge of a restart before the last one.  The
latch of the acknowledge is cleared in `ACTIVE` only, and a slot that faults behind the
restart of its branch asks again.

A ledger that the hardware does not have numbers the cycles with `restart_valid`, and marks
what is pushed with the number of the last that had been acknowledged and with its address.
-/

namespace R9999

namespace Core

variable {p : Params} {s : State} {i : Input}

/-- The address of the restart changes with a request, and on the way to an exception, which
asks for one. -/
theorem restartPc_next : (comb p s i).n.restartValid = true ∨
    (comb p s i).n.restartPc = s.regs.restartPc ∨ (comb p s i).n.state = .archFault := by
  have alone {w : FsmState}
      (hs : s.regs.state = .allocForSerialize ∧ w = .waitForSerializeAndRestart ∨
        s.regs.state = .serializeInFaultedDelaySlot ∧ w = .waitForSerializeInFaultedDelaySlot) :
      (comb p s i).n.restartPc = s.regs.restartPc := by
    obtain hc | ⟨-, hc⟩ := alone_turn (p := p) (i := i) hs <;> rw [hc] <;> rfl
  cases hs : s.regs.state with
  | active =>
    obtain ⟨c, hturn, hcomb⟩ := comb_active (p := p) (i := i) hs
    rw [hcomb]
    have hal : (allocate p s i (tick s i)).n.restartPc = s.regs.restartPc := by
      obtain ⟨-, h⟩ | ⟨-, -, h⟩ | ⟨-, h⟩ :=
        allocate_cases (p := p) (s := s) (i := i) (tick s i) <;> rw [h] <;> rfl
    cases hturn with
    | detour => exact .inr (.inl rfl)
    | fault e es hrob hdone hfault harch => exact .inr (.inr (by simp [finish, faultedHead, harch]))
    | restart e es hrob hdone hfault harch => exact .inl (by simp [finish, faultedHead, harch])
    | retire e es => exact .inr (.inl (by simpa [finish] using hal))
    | wait => exact .inr (.inl hal)
  | drain =>
    obtain ⟨c, hturn, hcomb⟩ := comb_drain (p := p) (i := i) hs
    rw [hcomb]
    cases hturn with
    | fault => exact .inr (.inr rfl)
    | wait => exact .inr (.inl rfl)
    | rat => exact .inr (.inl rfl)
    | nullify => exact .inr (.inl rfl)
    | retire => exact .inr (.inl rfl)
  | rat =>
    simp only [comb_rat hs, finish, rat]
    split <;> exact .inr (.inl rfl)
  | archFault =>
    simp only [comb_archFault hs, finish, archFault]
    split
    · exact .inr (.inl rfl)
    · dsimp only
      split <;> exact .inr (.inl rfl)
  | allocForSerialize => exact .inr (.inl (alone (.inl ⟨hs, rfl⟩)))
  | serializeInFaultedDelaySlot => exact .inr (.inl (alone (.inr ⟨hs, rfl⟩)))
  | waitForSerializeAndRestart =>
    simp only [comb, arm, hs, finish, waitForSerialize]
    split
    · exact .inr (.inl rfl)
    split
    · split
      · unfold requestFlush
        dsimp only
        split
        · exact .inr (.inl rfl)
        split
        · exact .inr (.inl rfl)
        split <;> exact .inr (.inl rfl)
      · split <;> exact .inl rfl
    · exact .inr (.inl rfl)
  | cacheFlush =>
    have hcomb : comb p s i = finish s (cacheFlush s (tick s i)) := by simp [comb, arm, hs]
    rw [hcomb]
    cases hrob : s.rob with
    | nil =>
      simp only [cacheFlush, hrob]
      exact .inr (.inl rfl)
    | cons e es =>
      have hturn := flush_turn hrob (tick s i)
      generalize cacheFlush s (tick s i) = c at hturn
      cases hturn with
      | wait => exact .inr (.inl rfl)
      | restart => exact .inl rfl
      | resume _ _ n hn => exact .inl (by simp only [finish, hn]; rfl)
  | waitForSerializeInFaultedDelaySlot =>
    simp only [comb, arm, hs, finish, waitInSlot]
    split
    · split
      · split <;> exact .inr (.inl rfl)
      · exact .inr (.inl rfl)
    · exact .inr (.inl rfl)
  | exceptionDrain =>
    simp only [comb, arm, hs, finish, exceptionDrain]
    split <;> exact .inr (.inl rfl)
  | flushForHalt =>
    simp only [comb, arm, hs, finish, flushForHalt]
    split <;> exact .inr (.inl rfl)
  | halt =>
    simp only [comb, arm, hs, finish, halt]
    split
    · exact .inl rfl
    · exact .inr (.inl rfl)
  | haltWaitForRestart =>
    simp only [comb, arm, hs, finish, haltWaitForRestart]
    split <;> exact .inr (.inl rfl)
  | writeEpc =>
    exact .inl (by simp only [comb, arm, hs, finish, writeEpc])
  | dead => exact .inr (.inl (by simp only [comb, arm, hs, finish, tick]))

end Core

namespace Mmu

namespace Fetch

variable {f : Fetch} {i : FetchIn}

/-- The control waits for a line, or for the end of a clear. -/
def stalls (f : Fetch) (i : FetchIn) : Bool :=
  match f.state with
  | .injectReload => !i.memRspValid
  | .initPht => !i.initDone
  | .flushCache => !f.flineOne && !i.flushDone
  | _ => false

/-- How many cycles the control is away from looking at a restart. -/
def distance (f : Fetch) : Nat :=
  match f.state with
  | .idle => 0
  | .flushCache => 1
  | .active | .reloadTurnaround | .waitForTlb | .initPht => 2
  | .waitForNotFull | .injectReload | .init => 3

theorem distance_le (f : Fetch) : f.distance ≤ 3 := by
  unfold distance
  split <;> decide

/-- A state that listens acknowledges a restart that waits, or begins a flush. -/
theorem redirect_waiting (hl : f.listens i = true) (h : (f.base i).restartReq = true) {n : Fetch}
    (hflush : n.flushReq = (f.base i).flushReq) (hline : n.flineReq = (f.base i).flineReq)
    (hrestart : n.restartReq = (f.base i).restartReq) :
    ∃ r, redirect i n = some r ∧ (f.acks i = true ∨ r.state = .flushCache) := by
  have hst : f.state ≠ .idle := by
    intro hi
    simp [listens, hi] at hl
  unfold redirect
  cases hf : (f.base i).flushReq with
  | true =>
    rw [hf] at hflush
    rw [if_pos hflush]
    exact ⟨_, rfl, .inr rfl⟩
  | false =>
    rw [hf] at hflush
    rw [if_neg (by simp [hflush])]
    cases hg : (f.base i).flineReq with
    | true =>
      rw [hg] at hline
      rw [if_pos hline]
      exact ⟨_, rfl, .inr rfl⟩
    | false =>
      rw [hg] at hline
      rw [if_neg (by simp [hline]), if_pos (hrestart.trans h)]
      refine ⟨_, rfl, .inl ?_⟩
      unfold acks
      split
      next hi => exact (hst hi).elim
      next => simp [hl, hf, hg, h]

/-- A restart that waits is acknowledged, or comes nearer to it. -/
theorem nearer (h : (f.base i).restartReq = true) : f.acks i = true ∨
    (if f.stalls i then 0 else 1) + (f.tick i).distance ≤ f.distance := by
  show _ ∨ _ + (f.control i).distance ≤ _
  -- a state that listens is two cycles away
  have looks {r : Fetch} (hfar : 2 ≤ f.distance) (hs : f.stalls i = false)
      (hr : f.acks i = true ∨ r.state = .flushCache) :
      f.acks i = true ∨ (if f.stalls i then 0 else 1) + r.distance ≤ f.distance := by
    obtain hack | hst := hr
    · exact .inl hack
    · have hone : r.distance = 1 := by simp [distance, hst]
      rw [hs, hone]
      exact .inr hfar
  cases hst : f.state with
  | init => exact .inr (by simp [control, distance, stalls, hst])
  | initPht =>
    cases hdone : i.initDone <;>
      exact .inr (by simp [control, distance, stalls, hst, hdone, base])
  | idle => exact .inl (by simpa [acks, hst] using h)
  | active =>
    obtain ⟨r, hr, hgo⟩ := redirect_waiting (by simp [listens, hst]) h
      (n := { f.base i with cachePc := f.pc, req := true, pc := f.pc + 4 }) rfl rfl rfl
    have hc : f.control i = r := by simp only [control, hst, active, hr]
    rw [hc]
    exact looks (by simp [distance, hst]) (by simp [stalls, hst]) hgo
  | injectReload =>
    cases hrsp : i.memRspValid <;>
      exact .inr (by simp [control, distance, stalls, hst, hrsp, base])
  | reloadTurnaround =>
    obtain ⟨r, hr, hgo⟩ := redirect_waiting (by simp [listens, hst]) h (n := f.base i) rfl rfl rfl
    have hc : f.control i = r := by simp only [control, hst, hr]
    rw [hc]
    exact looks (by simp [distance, hst]) (by simp [stalls, hst]) hgo
  | flushCache =>
    cases hone : f.flineOne <;> cases hdone : i.flushDone <;>
      exact .inr (by simp [control, distance, stalls, hst, hone, hdone, base])
  | waitForNotFull =>
    cases hfull : i.fqFull with
    | true =>
      obtain ⟨r, hr, hgo⟩ := redirect_waiting (by simp [listens, hst, hfull]) h
        (n := { f.base i with cachePc := f.missPc }) rfl rfl rfl
      have hc : f.control i = r := by simp only [control, hst, hfull, if_true, hr, Option.getD_some]
      rw [hc]
      exact looks (by simp [distance, hst]) (by simp [stalls, hst]) hgo
    | false => exact .inr (by simp [control, distance, stalls, hst, hfull])
  | waitForTlb =>
    obtain ⟨r, hr, hgo⟩ := redirect_waiting (by simp [listens, hst]) h
      (n := { f.base i with cachePc := f.missPc, req := true }) rfl rfl rfl
    have hc : f.control i = r := by simp only [control, hst, waitForTlb, hr]
    rw [hc]
    exact looks (by simp [distance, hst]) (by simp [stalls, hst]) hgo

end Fetch

end Mmu

namespace Frontend

open Core (Params FsmState)
open Mmu (Fetch FetchIn)

/-- Which restart an instruction was fetched for, and from where. -/
structure Origin where
  restart : Nat
  pc : BitVec 64
  deriving DecidableEq, Repr

/-- The fetch unit and the core, with what the restarts come to. -/
structure RestartState where
  hist : HistState
  /-- How many cycles have had `restart_valid` set. -/
  asked : Nat
  /-- `restart_pc` in the last of them. -/
  last : BitVec 64
  /-- How many of them there were at the last acknowledge. -/
  answered : Nat
  /-- `restart_pc` at the last acknowledge. -/
  start : BitVec 64
  /-- What the fetch queue holds. -/
  origins : List Origin
  /-- The core has gone on behind a restart, and decode has taken nothing since. -/
  resumed : Bool

section Machine

variable (p : Params) (s : RestartState) (i : HistIn)

/-- The restarts asked for, with the one of this cycle. -/
def askedNow : Nat := s.asked + if s.hist.core.regs.restartValid then 1 else 0

/-- The address of the last of them. -/
def lastNow : BitVec 64 :=
  if s.hist.core.regs.restartValid then s.hist.core.regs.restartPc else s.last

/-- What the cycle pushes. -/
def pushedOrigins : List Origin :=
  ((fetched (streamOf s.hist 0 []) (streamIn s.hist i)).map fun a => ⟨s.answered, a.pc⟩).reverse

/-- The core goes on in `ACTIVE` behind a restart. -/
def resumes : Bool :=
  s.hist.core.regs.state.awaits && decide ((histNext p s.hist i).core.regs.state = .active)

/-- A clock cycle. -/
def restartNext : RestartState where
  hist := histNext p s.hist i
  asked := askedNow s
  last := lastNow s
  answered := if ack s.hist i then askedNow s else s.answered
  start := if ack s.hist i then s.hist.core.regs.restartPc else s.start
  origins :=
    if s.hist.fetch.clears (fetchIn s.hist i) then []
    else s.origins.drop (dropping p s.hist i) ++ pushedOrigins s i
  resumed :=
    if s.hist.core.regs.state = .active then s.resumed && decide (dropping p s.hist i = 0)
    else resumes p s i

/-- What decode takes in the cycle. -/
def takes : List Origin := s.origins.take (dropping p s.hist i)

end Machine

/-- The reset values. -/
def restartReset (tlb : Fin Iss.numTlbEntries → Mmu.TlbStored)
    (micro : Fin Mmu.numUitlbEntries → Mmu.MicroEntry) : RestartState where
  hist := histReset tlb micro
  asked := 0
  last := 0
  answered := 0
  start := 0
  origins := []
  resumed := false

/-- Cycles in which no restart is acknowledged. -/
def Unanswered (s : RestartState) (i : HistIn) : Prop := ack s.hist i = false

/-- A cycle in which the fetch unit does not wait for a line or for the end of a clear. -/
def advances (s : RestartState) (i : HistIn) : Nat :=
  if s.hist.fetch.stalls (fetchIn s.hist i) then 0 else 1

/-- The law of the restarts. -/
structure RestartLaw (p : Params) (s : RestartState) : Prop where
  /-- Decode takes nothing that was fetched for another restart than the last. -/
  fresh : ∀ i, ∀ o ∈ takes p s i, o.restart = askedNow s
  /-- Behind a restart it begins at the address of the last one. -/
  first : s.resumed = true → ∀ i, ∀ o ∈ (takes p s i).head?, o.pc = lastNow s
  /-- A restart waits until it is acknowledged. -/
  waits : s.answered ≤ askedNow s ∧ (pending s.hist = true ↔ s.answered < askedNow s)
  /-- An acknowledge answers what waits, which no other has answered. -/
  once : ∀ i, ack s.hist i = true → s.answered < askedNow s ∧
    (restartNext p s i).answered = askedNow s
  /-- The acknowledge comes, after at most three cycles in which the fetch unit advances. -/
  soon : pending s.hist = true → ∀ is, Hw.RunOk (restartNext p) Unanswered s is →
    Hw.total (restartNext p) advances s is ≤ 3

section Step

variable {p : Params} {s : RestartState} {i : HistIn}

/-- What every cycle keeps. -/
structure RestartInv (s : RestartState) : Prop where
  placed : Placed s.hist
  queued : s.origins.length = s.hist.fq.length
  short : s.hist.fq.length ≤ s.hist.ledger.fetched.length
  tagged : ∀ o ∈ s.origins, o.restart = s.answered
  waits : s.answered ≤ s.asked ∧ (s.hist.fetch.restartReq = true ↔ s.answered < s.asked)
  /-- The core holds the address of its last request, but on the way to an exception. -/
  aimed : s.hist.core.regs.restartPc = lastNow s ∨ s.hist.core.regs.state = .archFault ∨
    s.hist.core.regs.state = .writeEpc
  /-- So does the fetch, if it has been told. -/
  told : s.answered = askedNow s → s.start = lastNow s ∨
    s.hist.core.regs.state = .archFault ∨ s.hist.core.regs.state = .writeEpc
  /-- Until something is pushed, it is at the address of the restart. -/
  addr : s.hist.ledger.fetched = [] → s.hist.fetch.running = true → s.hist.fetch.addr = s.start
  /-- Until something is taken, the first of the queue is from there. -/
  head : s.hist.fq.length = s.hist.ledger.fetched.length → ∀ o ∈ s.origins.head?, o.pc = s.start
  /-- Behind a restart nothing has been taken. -/
  back : s.resumed = true → s.hist.core.regs.state = .active →
    s.hist.fq.length = s.hist.ledger.fetched.length

/-- In `ACTIVE` what the fetch queue holds was fetched for the last restart. -/
theorem calm_of_queued {h : HistState} (hp : Placed h) (hs : h.core.regs.state = .active)
    (hfq : h.fq ≠ []) : pending h = false := by
  have hst := hp.stage
  simp only [Stage, hs] at hst
  obtain hlive | hstop := hst
  · by_contra hpend
    have hnil := hlive.fresh (.inl (by simpa using hpend))
    have hwhole := hlive.whole
    rw [hnil, List.append_eq_nil_iff, List.append_eq_nil_iff, List.append_eq_nil_iff] at hwhole
    exact hfq hwhole.2.2.2
  · exact hstop.calm.1

/-- The numbers in the middle of a cycle. -/
theorem answered_le (h : RestartInv s) : s.answered ≤ askedNow s ∧
    (pending s.hist = true ↔ s.answered < askedNow s) := by
  obtain ⟨hle, hiff⟩ := h.waits
  cases hrv : s.hist.core.regs.restartValid with
  | true =>
    simp only [askedNow, pending, hrv, if_true, Bool.true_or, true_iff]
    omega
  | false =>
    simp only [askedNow, pending, hrv, Bool.false_eq_true, if_false, Bool.false_or, Nat.add_zero]
    exact ⟨hle, hiff⟩

/-! ## What a cycle pushes -/

theorem pushedOrigins_length : (pushedOrigins s i).length = (pushes s.hist i).length := by
  obtain ⟨-, -, -, h⟩ := histNext_streams Core.machine s.hist i 0 []
  rw [← h, pushedOrigins, List.length_reverse, List.length_reverse, List.length_map,
    List.length_map]

theorem pushedOrigins_tagged : ∀ o ∈ pushedOrigins s i, o.restart = s.answered := by
  intro o ho
  rw [pushedOrigins, List.mem_reverse, List.mem_map] at ho
  obtain ⟨a, -, rfl⟩ := ho
  rfl

/-- The first is from the address of the access. -/
theorem pushedOrigins_head : ∀ o ∈ (pushedOrigins s i).head?, o.pc = s.hist.fetch.cachePc := by
  have hsteered : steered (streamOf s.hist 0 []) (streamIn s.hist i) = fetchIn s.hist i := rfl
  unfold pushedOrigins fetched
  rw [hsteered]
  cases hp : s.hist.fetch.pushes (fetchIn s.hist i) with
  | none => simp [streamOf, hp]
  | fault => simp [streamOf, streamIn, hp, Line.fetchedFault]
  | group =>
    simp only [streamOf, streamIn, hp]
    rw [← List.map_reverse, List.head?_map, Line.fetched_oldest]
    rintro o ⟨⟩
    rfl

theorem pushes_none {h : HistState} (hnil : pushes h i = []) :
    h.fetch.pushes (fetchIn h i) = .none := by
  unfold pushes at hnil
  split at hnil
  next hp => exact hp
  · cases hnil
  · unfold Line.pushes at hnil
    split at hnil <;> cases hnil

/-- Without a clear the queue hands on what it holds. -/
theorem origins_go (hclear : s.hist.fetch.clears (fetchIn s.hist i) = false) :
    (restartNext p s i).origins =
        s.origins.drop (dropping p s.hist i) ++ pushedOrigins s i ∧
      (restartNext p s i).hist.fq = s.hist.fq.drop (dropping p s.hist i) ++ pushes s.hist i := by
  have hno : ¬ s.hist.fetch.clears (fetchIn s.hist i) = true := by simp [hclear]
  exact ⟨if_neg hno, if_neg hno⟩

theorem origins_clear (hclear : s.hist.fetch.clears (fetchIn s.hist i) = true) :
    (restartNext p s i).origins = [] ∧ (restartNext p s i).hist.fq = [] :=
  ⟨if_pos hclear, if_pos hclear⟩

/-- Where the queue is not cleared, nothing is acknowledged. -/
theorem ack_of_go {h : HistState} (hsync : Sync h)
    (hclear : h.fetch.clears (fetchIn h i) = false) : ack h i = false := by
  obtain ⟨-, hc⟩ | ⟨hack, -⟩ := clears_cases (i := i) hsync
  · rw [hclear] at hc
    cases hc
  · exact hack

theorem fetched_go (hack : ack s.hist i = false) : (restartNext p s i).hist.ledger.fetched =
    s.hist.ledger.fetched ++ pushes s.hist i :=
  congrArg Ledger.fetched (ledger_go (p := p) hack)

/-! ## The numbers and the addresses -/

theorem waits_next (h : RestartInv s) : (restartNext p s i).answered ≤ (restartNext p s i).asked ∧
    ((restartNext p s i).hist.fetch.restartReq = true ↔
      (restartNext p s i).answered < (restartNext p s i).asked) := by
  have hreq : (restartNext p s i).hist.fetch.restartReq = (pending s.hist && !ack s.hist i) :=
    restartReq_next
  have hasked : (restartNext p s i).asked = askedNow s := rfl
  have hanswered : (restartNext p s i).answered =
      if ack s.hist i then askedNow s else s.answered := rfl
  rw [hreq, hasked, hanswered]
  obtain ⟨hle, hiff⟩ := answered_le h
  cases ack s.hist i with
  | true => simp
  | false => simpa using ⟨hle, hiff⟩

/-- On the way to an exception the next request has the address. -/
theorem epc_next (h : RestartInv s) (hs : s.hist.core.regs.state = .archFault ∨
    s.hist.core.regs.state = .writeEpc) :
    (restartNext p s i).hist.core.regs.state = .writeEpc ∨
      (restartNext p s i).hist.core.regs.restartValid = true := by
  obtain hs | hs := hs
  · have hmem := Core.state_next (p := p) (i := coreIn s.hist i) h.placed.sane.rob
      h.placed.sane.fits
    simp only [hs, FsmState.succs, List.mem_cons, List.not_mem_nil, or_false] at hmem
    exact .inl hmem
  · refine .inr ?_
    show (Core.comb p s.hist.core (coreIn s.hist i)).n.restartValid = true
    simp only [Core.comb, Core.arm, hs, Core.finish, Core.writeEpc]

theorem aimed_next (h : RestartInv s) :
    (restartNext p s i).hist.core.regs.restartPc = lastNow (restartNext p s i) ∨
      (restartNext p s i).hist.core.regs.state = .archFault ∨
      (restartNext p s i).hist.core.regs.state = .writeEpc := by
  cases hrv : (restartNext p s i).hist.core.regs.restartValid with
  | true => exact .inl (by rw [lastNow, hrv, if_pos rfl])
  | false =>
    have hlast : lastNow (restartNext p s i) = lastNow s := by
      rw [lastNow, hrv]
      rfl
    obtain hv | hpc | hst := Core.restartPc_next (p := p) (s := s.hist.core) (i := coreIn s.hist i)
    · rw [show (restartNext p s i).hist.core.regs.restartValid = true from hv] at hrv
      cases hrv
    · obtain haim | hs := h.aimed
      · exact .inl (by rw [hlast, ← haim]; exact hpc)
      · obtain hst | hv := epc_next (p := p) (i := i) h hs
        · exact .inr (.inr hst)
        · rw [hrv] at hv
          cases hv
    · exact .inr (.inl hst)

theorem told_next (h : RestartInv s)
    (hall : (restartNext p s i).answered = askedNow (restartNext p s i)) :
    (restartNext p s i).start = lastNow (restartNext p s i) ∨
      (restartNext p s i).hist.core.regs.state = .archFault ∨
      (restartNext p s i).hist.core.regs.state = .writeEpc := by
  have hle := (waits_next (p := p) (i := i) h).1
  cases hrv : (restartNext p s i).hist.core.regs.restartValid with
  | true =>
    simp only [askedNow, hrv, if_true] at hall
    omega
  | false =>
    have hlast : lastNow (restartNext p s i) = lastNow s := by
      rw [lastNow, hrv]
      rfl
    have hasked : askedNow (restartNext p s i) = askedNow s := by
      rw [askedNow, hrv]
      rfl
    -- on the way to an exception the core is still there
    have way (hs : s.hist.core.regs.state = .archFault ∨ s.hist.core.regs.state = .writeEpc) :
        (restartNext p s i).hist.core.regs.state = .writeEpc := by
      obtain hst | hv := epc_next (p := p) (i := i) h hs
      · exact hst
      · rw [hrv] at hv
        cases hv
    rw [hlast]
    cases hack : ack s.hist i with
    | true =>
      have hstart : (restartNext p s i).start = s.hist.core.regs.restartPc := if_pos hack
      rw [hstart]
      obtain haim | hs := h.aimed
      · exact .inl haim
      · exact .inr (.inr (way hs))
    | false =>
      have hstart : (restartNext p s i).start = s.start := if_neg (by simp [hack])
      have hanswered : (restartNext p s i).answered = s.answered := if_neg (by simp [hack])
      rw [hanswered, hasked] at hall
      rw [hstart]
      obtain htold | hs := h.told hall
      · exact .inl htold
      · exact .inr (.inr (way hs))

/-! ## The fetch queue -/

/-- The fetch stays at the address of the restart until it pushes. -/
theorem addr_next (h : RestartInv s) (hnil : (restartNext p s i).hist.ledger.fetched = [])
    (hrun : (restartNext p s i).hist.fetch.running = true) :
    (restartNext p s i).hist.fetch.addr = (restartNext p s i).start := by
  have hh : s.hist.fetch.Handshake (fetchIn s.hist i) (restartNext p s i).hist.fetch :=
    handshake
  cases hh with
  | wait hack hclear _ _ _ hkeep =>
    have hack : ack s.hist i = false := hack
    have hstart : (restartNext p s i).start = s.start := if_neg (by simp [hack])
    rw [fetched_go hack] at hnil
    obtain ⟨hf, hp⟩ := List.append_eq_nil_iff.mp hnil
    rw [hkeep] at hrun
    rw [hstart, ← h.addr hf hrun]
    have hgo : s.hist.fetch.GoesOn (fetchIn s.hist i) (restartNext p s i).hist.fetch :=
      Fetch.tick_goesOn hclear
    have hnone := pushes_none hp
    cases hgo with
    | wait _ hstay => exact (hstay hrun).1
    | fault hpush =>
      rw [hnone] at hpush
      cases hpush
    | group hpush =>
      rw [hnone] at hpush
      cases hpush
  | flush _ _ _ hstop =>
    rw [hstop] at hrun
    cases hrun
  | restart hack =>
    have hack : ack s.hist i = true := hack
    have hstart : (restartNext p s i).start = s.hist.core.regs.restartPc := if_pos hack
    rw [hstart]
    exact (Fetch.acks_goes hack).1

/-- Until something is taken, the first of the queue is the first of the stream. -/
theorem first_next (h : RestartInv s)
    (hwhole : (restartNext p s i).hist.fq.length = (restartNext p s i).hist.ledger.fetched.length) :
    ∀ o ∈ (restartNext p s i).origins.head?, o.pc = (restartNext p s i).start := by
  intro o ho
  cases hclear : s.hist.fetch.clears (fetchIn s.hist i) with
  | true =>
    rw [(origins_clear (p := p) hclear).1] at ho
    cases ho
  | false =>
    have hack := ack_of_go h.placed.sync hclear
    have hstart : (restartNext p s i).start = s.start := if_neg (by simp [hack])
    have hfetched := fetched_go (p := p) (s := s) hack
    obtain ⟨horigins, hfq⟩ := origins_go (p := p) hclear
    have hshort := h.short
    have hlen := h.queued
    rw [hfq, hfetched, List.length_append, List.length_append, List.length_drop] at hwhole
    rw [hstart]
    rw [horigins] at ho
    cases hd : s.origins.drop (dropping p s.hist i) with
    | nil =>
      -- the queue is empty, and so is the stream
      have hle := List.drop_eq_nil_iff.mp hd
      have hnil : s.hist.ledger.fetched = [] := List.length_eq_zero_iff.mp (by omega)
      rw [hd, List.nil_append] at ho
      rw [pushedOrigins_head o ho]
      have hpush : s.hist.fetch.pushes (fetchIn s.hist i) ≠ .none := by
        intro hno
        have hzero := pushedOrigins_length (s := s) (i := i)
        rw [show pushes s.hist i = [] by simp [pushes, hno]] at hzero
        rw [List.length_eq_zero_iff.mp hzero] at ho
        cases ho
      have hrun := (Fetch.pushes_free hpush).2.2
      rw [← h.addr hnil hrun]
      have hgo : s.hist.fetch.GoesOn (fetchIn s.hist i) (restartNext p s i).hist.fetch :=
        Fetch.tick_goesOn hclear
      cases hgo with
      | wait hno => exact (hpush hno).elim
      | fault _ hcache => exact hcache.symm
      | group _ hcache => exact hcache.symm
    | cons a as =>
      have hzero : dropping p s.hist i = 0 := by
        have hlt : (s.origins.drop (dropping p s.hist i)).length ≠ 0 := by simp [hd]
        rw [List.length_drop] at hlt
        omega
      rw [hzero, List.drop_zero] at hd
      refine h.head (by omega) o ?_
      rw [hzero, List.drop_zero, hd] at ho
      rw [hd]
      exact ho

/-- Out of `ACTIVE` decode takes nothing. -/
theorem whole_next {h : HistState} (hp : Placed h) (hs : h.core.regs.state ≠ .active)
    (hc : h.core.regs.state ≠ .cacheFlush) (hwhole : h.fq = h.ledger.fetched) :
    (histNext p h i).fq = (histNext p h i).ledger.fetched := by
  cases hack : ack h i with
  | true => rw [fq_ack hp.sync hack, ledger_ack hack]
  | false =>
    have hdrop : dropping p h i = 0 := if_neg hs
    rw [fq_go hp.sync hack hc, ledger_go hack, hdrop, List.drop_zero, hwhole]

/-- The core goes on behind a restart with all that was fetched. -/
theorem resumes_whole {h : HistState} (hp : Placed h) (hs : h.core.regs.state.awaits = true)
    (hn : (histNext p h i).core.regs.state = .active) :
    (histNext p h i).fq = (histNext p h i).ledger.fetched := by
  have hst := hp.stage
  have hgo : h.core.regs.gotRestartAck = true ∨ h.restartAck = true :=
    Core.resume_acked (p := p) (i := coreIn h i) hs hn
  -- the acknowledge comes in this cycle
  have now (hgot : h.core.regs.gotRestartAck = false) :
      (histNext p h i).fq = (histNext p h i).ledger.fetched := by
    have hra : h.restartAck = true := by
      obtain hg | hra := hgo
      · rw [hgot] at hg
        cases hg
      · exact hra
    obtain ⟨hfetched, hfq⟩ := fetched_behind (p := p) (i := i) hp.sync hra
    rw [hfetched, hfq]
  cases hc : h.core.regs.state with
  | rat =>
    simp only [Stage, hc] at hst
    have hacked : acked h = true := by
      rw [acked, Bool.or_eq_true]
      exact hgo
    exact whole_next hp (by simp [hc]) (by simp [hc]) (hst.again hacked).1
  | waitForSerializeAndRestart =>
    simp only [Stage, hc] at hst
    exact now hst.1.got
  | cacheFlush =>
    simp only [Stage, hc] at hst
    exact now hst.1.got
  | haltWaitForRestart =>
    simp only [Stage, hc] at hst
    exact now hst.got
  | _ => simp [hc, Core.FsmState.awaits] at hs

theorem restartInv_next (h : RestartInv s) (hstale : ¬ StaleAck s.hist i) :
    RestartInv (restartNext p s i) where
  placed := placed_next h.placed hstale
  queued := by
    cases hclear : s.hist.fetch.clears (fetchIn s.hist i) with
    | true =>
      obtain ⟨horigins, hfq⟩ := origins_clear (p := p) hclear
      rw [horigins, hfq]
      rfl
    | false =>
      obtain ⟨horigins, hfq⟩ := origins_go (p := p) hclear
      rw [horigins, hfq, List.length_append, List.length_append, List.length_drop,
        List.length_drop, h.queued, pushedOrigins_length]
  short := by
    cases hclear : s.hist.fetch.clears (fetchIn s.hist i) with
    | true =>
      rw [(origins_clear (p := p) hclear).2]
      exact Nat.zero_le _
    | false =>
      have hack := ack_of_go h.placed.sync hclear
      have hfetched := fetched_go (p := p) (s := s) hack
      have hshort := h.short
      rw [(origins_go (p := p) hclear).2, hfetched, List.length_append, List.length_append,
        List.length_drop]
      omega
  tagged := by
    intro o ho
    cases hclear : s.hist.fetch.clears (fetchIn s.hist i) with
    | true =>
      rw [(origins_clear (p := p) hclear).1] at ho
      cases ho
    | false =>
      have hanswered : (restartNext p s i).answered = s.answered :=
        if_neg (by simp [ack_of_go h.placed.sync hclear])
      rw [hanswered]
      rw [(origins_go (p := p) hclear).1] at ho
      obtain ho | ho := List.mem_append.mp ho
      · exact h.tagged o (List.mem_of_mem_drop ho)
      · exact pushedOrigins_tagged o ho
  waits := waits_next h
  aimed := aimed_next h
  told := told_next h
  addr := addr_next h
  head := first_next h
  back := by
    intro hres hn
    have hres : (if s.hist.core.regs.state = .active
        then s.resumed && decide (dropping p s.hist i = 0) else resumes p s i) = true := hres
    split at hres
    next hs =>
      simp only [Bool.and_eq_true, decide_eq_true_eq] at hres
      obtain ⟨hres, hdrop⟩ := hres
      have hwas := h.back hres hs
      cases hack : ack s.hist i with
      | true =>
        have hfq : (restartNext p s i).hist.fq = [] := fq_ack h.placed.sync hack
        have hfetched : (restartNext p s i).hist.ledger.fetched = [] :=
          congrArg Ledger.fetched (ledger_ack (p := p) hack)
        rw [hfq, hfetched]
      | false =>
        have hfq : (restartNext p s i).hist.fq = s.hist.fq.drop 0 ++ pushes s.hist i := by
          rw [← hdrop]
          exact fq_go h.placed.sync hack (by rw [hs]; decide)
        rw [hfq, fetched_go hack, List.drop_zero, List.length_append, List.length_append, hwas]
    next hs =>
      simp only [resumes, Bool.and_eq_true, decide_eq_true_eq] at hres
      exact congrArg List.length (resumes_whole h.placed hres.1 hres.2)

theorem restartInv_reset (tlb : Fin Iss.numTlbEntries → Mmu.TlbStored)
    (micro : Fin Mmu.numUitlbEntries → Mmu.MicroEntry) :
    RestartInv (restartReset tlb micro) where
  placed := placed_reset tlb micro
  queued := rfl
  short := Nat.le_refl 0
  tagged o h := by cases h
  waits := ⟨Nat.le_refl 0, by simp [restartReset, histReset, Fetch.reset]⟩
  aimed := .inl rfl
  told _ := .inl rfl
  addr _ h := by cases h
  head _ o h := by cases h
  back h := by cases h

/-- A restart that waits is acknowledged soon. -/
theorem acknowledged_soon (hpend : pending s.hist = true) {is : List HistIn}
    (h : Hw.RunOk (restartNext p) Unanswered s is) :
    Hw.total (restartNext p) advances s is ≤ 3 := by
  have hle : Hw.total (restartNext p) advances s is ≤ s.hist.fetch.distance := by
    refine Hw.RunOk.total_le (I := fun s => pending s.hist = true)
      (m := fun s => s.hist.fetch.distance) ?_ ?_ hpend h
    · intro s i hpend hack
      have hreq : (restartNext p s i).hist.fetch.restartReq = true := by
        rw [show (restartNext p s i).hist.fetch.restartReq = _ from restartReq_next, hpend, hack]
        rfl
      show (_ || (restartNext p s i).hist.fetch.restartReq) = true
      rw [hreq, Bool.or_true]
    · intro s i hpend hack
      obtain hyes | hnear := Fetch.nearer (f := s.hist.fetch) (i := fetchIn s.hist i) hpend
      · rw [show s.hist.fetch.acks (fetchIn s.hist i) = false from hack] at hyes
        cases hyes
      · exact hnear
  exact hle.trans (Fetch.distance_le s.hist.fetch)

/-- The invariants at a cycle are the law of the cycle. -/
theorem restartLaw_of_inv (h : RestartInv s) : RestartLaw p s := by
  -- a cycle that takes something
  have taking {i : HistIn} {o : Origin} (ho : o ∈ takes p s i) :
      s.hist.core.regs.state = .active ∧ s.answered = askedNow s := by
    have hs : s.hist.core.regs.state = .active := by
      by_contra hs
      simp [takes, dropping, hs] at ho
    have hfq : s.hist.fq ≠ [] := by
      intro hnil
      have hlen := h.queued
      rw [hnil] at hlen
      rw [takes, List.length_eq_zero_iff.mp hlen, List.take_nil] at ho
      cases ho
    have hcalm := calm_of_queued h.placed hs hfq
    simp only [pending, Bool.or_eq_false_iff] at hcalm
    obtain ⟨hrv, hreq⟩ := hcalm
    have hno : ¬ s.answered < s.asked := by
      rw [← h.waits.2, hreq]
      decide
    refine ⟨hs, ?_⟩
    rw [askedNow, hrv]
    exact Nat.le_antisymm h.waits.1 (Nat.not_lt.mp hno)
  have hwaits := answered_le h
  refine ⟨?_, ?_, hwaits, ?_, fun hpend _ => acknowledged_soon hpend⟩
  · intro i o ho
    rw [h.tagged o (List.mem_of_mem_take ho)]
    exact (taking ho).2
  · intro hres i o ho
    obtain ⟨hs, hanswered⟩ := taking (List.mem_of_mem_head? ho)
    have hhead : o ∈ s.origins.head? := by
      rw [takes, List.head?_take] at ho
      split at ho
      · cases ho
      · exact ho
    rw [h.head (h.back hres hs) o hhead]
    exact (h.told hanswered).resolve_right (by simp [hs])
  · intro i hack
    exact ⟨hwaits.2.mp (pending_of_ack hack), if_pos hack⟩

end Step

/-- **The restarts.**  After every run in which `RAT` never goes on with an acknowledge that is
older than the last request, decode takes what was fetched for the last restart, from its
address on, and every restart is acknowledged once. -/
theorem restarts_answered (p : Params) (tlb : Fin Iss.numTlbEntries → Mmu.TlbStored)
    (micro : Fin Mmu.numUitlbEntries → Mmu.MicroEntry) (is : List HistIn)
    (h : Hw.RunOk (restartNext p) (fun s i => ¬ StaleAck s.hist i) (restartReset tlb micro) is) :
    RestartLaw p (Hw.run (restartNext p) (restartReset tlb micro) is) :=
  restartLaw_of_inv (Hw.RunOk.invariant (I := RestartInv) (fun _ _ => restartInv_next)
    (restartInv_reset tlb micro) h)

section Runs

open Core (quiet machine)

/-- The state after reset, with an empty TLB. -/
def restartStart : RestartState := restartReset (fun _ => {}) fun _ => {}

theorem restarts_answered_jump :
    Hw.RunOk (restartNext machine) (fun s i => ¬ StaleAck s.hist i) restartStart
        (jumpTo .nop .nop) ∧
      RestartLaw machine (Hw.run (restartNext machine) restartStart (jumpTo .nop .nop)) :=
  ⟨by decide +kernel, restarts_answered machine _ _ _ (by decide +kernel)⟩

/-- What was fetched behind the branch is decoded in front of the exception of its slot. -/
theorem old_stream_decoded : ¬ ∀ (p : Params) (tlb : Fin Iss.numTlbEntries → Mmu.TlbStored)
    (micro : Fin Mmu.numUitlbEntries → Mmu.MicroEntry) (is : List HistIn),
      RestartLaw p (Hw.run (restartNext p) (restartReset tlb micro) is) := by
  intro h
  have hfresh := (h machine (fun _ => {}) (fun _ => {}) (overflowInSlot.take 23)).fresh
    (plain quiet)
  revert hfresh
  decide +kernel

end Runs

end Frontend

end R9999
