import R9999.Frontend.StageNext

/-!
# The two histories

At a fetch on a correctly predicted path the speculative history is the architectural
history as it is when every older instruction has retired, and behind a restart the two are
equal, as long as no group hides a branch from the speculative history, no branch retires
from the slot of another behind the acknowledge, and no acknowledge is taken for another.
-/

namespace R9999

namespace Frontend

open Core (Entry Params Comb Sane FsmState comb)
open Hw (shiftIn shiftAll)

/-- The law of the histories. -/
structure HistLaw (s : HistState) : Prop where
  /-- What stays on the path is what was fetched, in order. -/
  order : ((program s).takeWhile onPath).map Prod.snd <+: s.ledger.fetched
  /-- The history at a fetch, once every older instruction is known to stay on the path. -/
  fetch : ∀ g ∈ s.ledger.groups, g.older ≤ (program s).length →
    (∀ x ∈ (program s).take g.older, onPath x = true) →
      g.hist = shiftAll s.ledger.base (((program s).take g.older).flatMap outcome)
  /-- The tables were read a cycle before, at most one group earlier. -/
  index : ∀ g ∈ s.ledger.groups, g.seen ≤ g.older ∧ g.older ≤ g.seen + 2 ∧
    (g.seen ≤ (program s).length → (∀ x ∈ (program s).take g.seen, onPath x = true) →
      g.index = shiftAll s.ledger.base (((program s).take g.seen).flatMap outcome))
  /-- Retirement adds the outcomes in program order. -/
  arch : archNext s = shiftAll s.ledger.base (s.ledger.left.flatMap outcome)
  restart : s.restartAck = true → s.spec = s.arch ∧ s.spec = archNext s

/-- A branch retires in the slot of the branch that restarts the fetch, and the history has
been restored already. -/
def LateBranch (p : Params) (s : HistState) (i : HistIn) : Prop :=
  s.core.regs.state = .drain ∧ (acked s || ack s i) = true ∧
    (reported s (turn p s i)).any (·.uop.isBr) = true

instance (p : Params) (s : HistState) (i : HistIn) : Decidable (LateBranch p s i) :=
  inferInstanceAs (Decidable (_ ∧ _ ∧ _))

/-- No branch that the cycle pushes is skipped by the speculative history. -/
def Counted (s : HistState) (i : HistIn) : Prop :=
  s.fetch.pushes (fetchIn s i) = .group →
    i.line.skips s.fetch.cachePc s.delaySlot (fqFull2 s) = false

instance (s : HistState) (i : HistIn) : Decidable (Counted s i) :=
  inferInstanceAs (Decidable (_ → _))

/-- The condition on a cycle. -/
structure HistOk (p : Params) (s : HistState) (i : HistIn) : Prop where
  counted : Counted s i
  inTime : ¬ LateBranch p s i
  fresh : ¬ StaleAck s i

instance (p : Params) (s : HistState) (i : HistIn) : Decidable (HistOk p s i) :=
  decidable_of_iff (Counted s i ∧ ¬ LateBranch p s i ∧ ¬ StaleAck s i)
    ⟨fun h => ⟨h.1, h.2.1, h.2.2⟩, fun h => ⟨h.counted, h.inTime, h.fresh⟩⟩

/-- The registers and the ledger agree. -/
structure Kept (s : HistState) : Prop where
  spec : s.spec = shiftAll s.ledger.base (s.ledger.fetched.flatMap FetchInsn.bits)
  arch : archNext s = shiftAll s.ledger.base (s.ledger.left.flatMap outcome)
  index : s.fetch.req = true → s.ledger.fetched.length ≤ s.ledger.before + 2 ∧
    s.lastSpec = shiftAll s.ledger.base
      ((s.ledger.fetched.take s.ledger.before).flatMap FetchInsn.bits)
  groups : ∀ g ∈ s.ledger.groups, g.seen ≤ g.older ∧ g.older ≤ g.seen + 2 ∧
    g.older ≤ s.ledger.fetched.length ∧
    g.hist = shiftAll s.ledger.base ((s.ledger.fetched.take g.older).flatMap FetchInsn.bits) ∧
    g.index = shiftAll s.ledger.base ((s.ledger.fetched.take g.seen).flatMap FetchInsn.bits)
  restart : s.restartAck = true → s.spec = s.arch

section Step

variable {p : Params} {s : HistState} {i : HistIn}

/-! ## The speculative history -/

theorem pushes_length : (pushes s i).length ≤ 2 := by
  unfold pushes
  split
  · exact Nat.zero_le 2
  · exact Nat.le_succ 1
  · unfold Line.pushes
    split <;> simp

/-- The speculative history takes the bits of what is pushed. -/
theorem specBits_eq (h : HistOk p s i) : specBits s i = (pushes s i).flatMap FetchInsn.bits := by
  unfold specBits pushes
  cases hp : s.fetch.pushes (fetchIn s i) with
  | none => rfl
  | fault => simp [FetchInsn.bits, Line.missedInsn]
  | group => exact Line.taken_eq_iff.mpr (h.counted hp)

/-! ## The architectural history -/

/-- Where an exception is taken, the entry at the head has its cause. -/
theorem archFault_head (hp : Placed s) (hs : s.core.regs.state = .archFault) :
    ∀ e es, s.core.rob = e :: es → e.archFault = true := by
  intro e es hrob
  have hst := hp.stage
  simp only [Stage, hs] at hst
  obtain ⟨-, b, bs, hb, harch⟩ := hst
  obtain ⟨rfl, -⟩ := List.cons.inj (hrob.symm.trans hb)
  exact harch

/-- Without a report nothing is added. -/
theorem leaves_quiet (hp : Placed s) (h : (reported s (turn p s i)).any (·.uop.isBr) = false) :
    (leaves s (turn p s i)).flatMap outcome = [] := by
  rw [← reported_eq hp.links hp.sane (archFault_head hp), h]
  exact if_neg Bool.false_ne_true

theorem quiet_take {xs : List (Entry × FetchInsn)} (h : xs.flatMap outcome = []) (n : Nat) :
    (xs.take n).flatMap outcome = [] := by
  rw [List.flatMap_eq_nil_iff] at h ⊢
  intro x hx
  exact h x (List.mem_of_mem_take hx)

/-- What is from before the restart adds nothing to the history, and nothing that leaves in
the cycle of an acknowledge does. -/
theorem older_quiet (hp : Placed s) (hok : HistOk p s i) :
    ((leaves s (turn p s i)).take s.ledger.older).flatMap outcome = [] ∧
      (ack s i = true → (leaves s (turn p s i)).flatMap outcome = []) := by
  by_cases hl : Core.leaving (turn p s i) = 0
  · rw [leaves_nil hl, List.take_nil]
    exact ⟨rfl, fun _ => rfl⟩
  have hst := hp.stage
  obtain hs | hs | hs := Core.leaving_cases (p := p) (i := coreIn s i) hp.sane.rob hp.sane.fits hl
  · simp only [Stage, hs] at hst
    obtain h | h := hst
    · have hfirst : ((leaves s (turn p s i)).take s.ledger.older).flatMap outcome = [] := by
        rw [List.flatMap_eq_nil_iff]
        intro x hx
        obtain ⟨k, hk⟩ := List.mem_iff_getElem?.mp hx
        rw [List.getElem?_take] at hk
        split at hk
        next hlt =>
          obtain ⟨-, hrob, -⟩ := leaves_getElem? hk
          simp [outcome, (h.older k x.1 hlt hrob).2.2]
        next => cases hk
      refine ⟨hfirst, fun hack => ?_⟩
      -- nothing has been fetched, so everything is from before
      have hwhole := h.whole
      rw [h.fresh (.inl (pending_of_ack hack)), List.append_eq_nil_iff,
        List.append_eq_nil_iff] at hwhole
      have hlen : (leaves s (turn p s i)).length ≤ s.ledger.older := by
        have h1 := List.drop_eq_nil_iff.mp hwhole.2.1
        have h2 := congrArg List.length (leaves_snd hp.links (turn p s i))
        rw [List.length_map, List.length_take] at h2
        omega
      rwa [List.take_of_length_le hlen] at hfirst
    · rw [h.older, List.take_zero]
      refine ⟨rfl, fun hack => ?_⟩
      rw [ack_of_calm h.calm.1] at hack
      cases hack
  · simp only [Stage, hs] at hst
    by_cases hrep : (reported s (turn p s i)).any (·.uop.isBr) = true
    · have hno : (acked s || ack s i) = false := by
        by_contra hy
        rw [Bool.not_eq_false] at hy
        exact hok.inTime ⟨hs, hy, hrep⟩
      rw [Bool.or_eq_false_iff] at hno
      rw [(hst.broken hno.1).1, List.take_zero]
      refine ⟨rfl, fun hack => ?_⟩
      rw [hno.2] at hack
      cases hack
    · have hq := leaves_quiet hp (by simpa using hrep)
      exact ⟨quiet_take hq _, fun _ => hq⟩
  · have hrep : (reported s (turn p s i)).any (·.uop.isBr) = false := by
      have hexit := Core.exit_cases (p := p) (i := coreIn s i) hp.sane.rob hp.sane.fits
      rw [← turn_eq] at hexit
      cases hexit with
      | none _ hr => simp [reported, hr]
      | fault _ _ hr => simp [reported, hr]
      | one _ _ _ _ _ hst' => simp [hs] at hst'
      | two _ _ _ _ _ _ _ _ _ hst' => simp [hs] at hst'
    have hq := leaves_quiet hp hrep
    exact ⟨quiet_take hq _, fun _ => hq⟩

/-! ## A cycle -/

theorem kept_ack (hp : Placed s) (hok : HistOk p s i) (hack : ack s i = true) :
    Kept (histNext p s i) := by
  have hspec : (histNext p s i).spec = archNext s := if_pos hack
  refine ⟨?_, ?_, ?_, ?_, fun _ => hspec⟩
  · rw [hspec, ledger_ack hack]
    rfl
  · rw [archNext_next hp.links hp.sane (archFault_head hp), (older_quiet hp hok).2 hack,
      ledger_ack hack]
    rfl
  · intro hreq
    have hra : (histNext p s i).restartAck = true := hack
    have hno := ((placed_next hp hok.fresh).sync.acked hra).1
    rw [hreq] at hno
    cases hno
  · rw [ledger_ack hack]
    intro g hg
    cases hg

theorem kept_go (h : Kept s) (hp : Placed s) (hok : HistOk p s i) (hack : ack s i = false) :
    Kept (histNext p s i) := by
  have hspec : (histNext p s i).spec = shiftAll s.spec (specBits s i) := if_neg (by simp [hack])
  have hlen := pushes_length (s := s) (i := i)
  -- what was fetched before is still there
  have keep {n : Nat} (hn : n ≤ s.ledger.fetched.length) :
      (s.ledger.fetched ++ pushes s i).take n = s.ledger.fetched.take n :=
    List.take_append_of_le_length hn
  refine ⟨?_, ?_, ?_, ?_, ?_⟩
  · rw [hspec, ledger_go hack, specBits_eq hok, h.spec, Hw.shiftAll_flatMap_append]
  · rw [archNext_next hp.links hp.sane (archFault_head hp), h.arch, ledger_go hack]
    have hsplit : (leaves s (turn p s i)).flatMap outcome =
        ((leaves s (turn p s i)).drop s.ledger.older).flatMap outcome := by
      calc (leaves s (turn p s i)).flatMap outcome
          = ((leaves s (turn p s i)).take s.ledger.older ++
              (leaves s (turn p s i)).drop s.ledger.older).flatMap outcome := by
            rw [List.take_append_drop]
        _ = _ := by rw [List.flatMap_append, (older_quiet hp hok).1, List.nil_append]
    rw [hsplit, Hw.shiftAll_flatMap_append]
  · intro _
    rw [ledger_go hack]
    dsimp only
    rw [keep (Nat.le_refl _), List.take_length, List.length_append]
    exact ⟨by omega, h.spec⟩
  · rw [ledger_go hack]
    dsimp only
    intro g hg
    have old (hg : g ∈ s.ledger.groups) : g.seen ≤ g.older ∧ g.older ≤ g.seen + 2 ∧
        g.older ≤ (s.ledger.fetched ++ pushes s i).length ∧
        g.hist = shiftAll s.ledger.base
          (((s.ledger.fetched ++ pushes s i).take g.older).flatMap FetchInsn.bits) ∧
        g.index = shiftAll s.ledger.base
          (((s.ledger.fetched ++ pushes s i).take g.seen).flatMap FetchInsn.bits) := by
      obtain ⟨h1, h2, h3, h4, h5⟩ := h.groups g hg
      rw [keep h3, keep (h1.trans h3), List.length_append]
      exact ⟨h1, h2, h3.trans (Nat.le_add_right _ _), h4, h5⟩
    split at hg
    next => exact old hg
    next hne =>
      obtain hg | hg := List.mem_append.mp hg
      · exact old hg
      · obtain rfl := List.mem_singleton.mp hg
        have hreq : s.fetch.req = true := by
          obtain hnil | ⟨hreq, -⟩ := pushes_cases (s := s) (i := i)
          · simp [hnil] at hne
          · exact hreq
        obtain ⟨h1, h2⟩ := h.index hreq
        simp only [group]
        rw [keep (Nat.le_refl _), keep hp.sync.before, List.take_length, List.length_append]
        exact ⟨hp.sync.before, h1, Nat.le_add_right _ _, h.spec, h2⟩
  · intro hra
    rw [show (histNext p s i).restartAck = false from hack] at hra
    cases hra

theorem kept_next (h : Kept s) (hp : Placed s) (hok : HistOk p s i) : Kept (histNext p s i) := by
  cases hack : ack s i with
  | true => exact kept_ack hp hok hack
  | false => exact kept_go h hp hok hack

theorem kept_reset (tlb : Fin Iss.numTlbEntries → Mmu.TlbStored)
    (micro : Fin Mmu.numUitlbEntries → Mmu.MicroEntry) : Kept (histReset tlb micro) where
  spec := rfl
  arch := rfl
  index := by
    intro h
    cases h
  groups := by
    intro g hg
    cases hg
  restart := by
    intro h
    cases h

/-! ## The path -/

theorem program_snd (hl : Links s) :
    (program s).map Prod.snd = s.ledger.left.map Prod.snd ++ s.robTags.drop s.ledger.older := by
  rw [program, List.map_append, List.map_drop, List.map_snd_zip (ge_of_eq hl.rob.length_eq)]

/-- From the acknowledge on nothing of the new path has been allocated. -/
theorem program_nil (hl : Links s) (hleft : s.ledger.left = [])
    (holder : s.ledger.older = s.core.rob.length) : program s = [] := by
  rw [program, hleft, holder, List.nil_append, List.drop_eq_nil_iff, List.length_zip,
    ← hl.rob.length_eq, Nat.min_self]

/-- **Program order.**  What stays on the path is what was fetched, in order. -/
theorem program_order (hp : Placed s) :
    ((program s).takeWhile onPath).map Prod.snd <+: s.ledger.fetched := by
  have hst := hp.stage
  have hfits := hp.sane.fits
  -- all that is allocated was fetched
  have whole (h : (program s).map Prod.snd <+: s.ledger.fetched) :
      ((program s).takeWhile onPath).map Prod.snd <+: s.ledger.fetched :=
    ((List.takeWhile_prefix onPath).map Prod.snd).trans h
  have nil (h : program s = []) :
      ((program s).takeWhile onPath).map Prod.snd <+: s.ledger.fetched := by
    rw [h]
    exact List.nil_prefix
  have stopped (h : Stopped s) :
      ((program s).takeWhile onPath).map Prod.snd <+: s.ledger.fetched := by
    obtain ⟨e, es, hrob, -, hfault⟩ := h.head
    have hr := hp.links.rob
    rw [hrob] at hr
    obtain ⟨a, as, -, -, htags⟩ := List.forall₂_cons_left_iff.mp hr
    rw [program, h.older, hrob, htags, List.drop_zero, List.zip_cons_cons,
      List.takeWhile_append_of_pos h.left,
      List.takeWhile_cons_of_neg (by simp [onPath, hfault]), List.append_nil]
    exact h.pre
  have redirected (h : Redirected s) :
      ((program s).takeWhile onPath).map Prod.snd <+: s.ledger.fetched := by
    cases hacked : acked s with
    | true =>
      obtain ⟨-, hleft, holder⟩ := h.again hacked
      exact nil (program_nil hp.links hleft holder)
    | false =>
      obtain ⟨-, hfails, hpre⟩ := h.broken hacked
      rw [program, Hw.takeWhile_append_of_fails hfails]
      exact hpre
  have alone (h : Alone s) :
      ((program s).takeWhile onPath).map Prod.snd <+: s.ledger.fetched := by
    cases hra : s.restartAck with
    | true =>
      obtain ⟨-, -, -, hleft, -, holder⟩ := hp.sync.acked hra
      exact nil (program_nil hp.links hleft holder)
    | false =>
      obtain ⟨holder, -, hpre⟩ := h.held hra
      refine whole ?_
      rw [program_snd hp.links, holder, List.drop_zero]
      exact hpre
  have boot (h : Boot s) (hrob : s.core.rob = []) :
      ((program s).takeWhile onPath).map Prod.snd <+: s.ledger.fetched := by
    refine nil ?_
    rw [program, h.left, hrob]
    simp
  cases hs : s.core.regs.state with
  | active =>
    simp only [Stage, hs] at hst
    obtain h | h := hst
    · refine whole ?_
      rw [program_snd hp.links, ← h.whole, ← List.append_assoc]
      exact List.prefix_append _ _
    · exact stopped h
  | drain | writeEpc | exceptionDrain | rat =>
    simp only [Stage, hs] at hst
    exact redirected hst
  | archFault =>
    simp only [Stage, hs] at hst
    obtain ⟨⟨h, -⟩ | h, -⟩ := hst
    · exact stopped h
    · exact redirected h
  | serializeInFaultedDelaySlot | waitForSerializeInFaultedDelaySlot =>
    simp only [Stage, hs] at hst
    exact stopped hst
  | allocForSerialize =>
    simp only [Stage, hs] at hst
    simp only [Core.Fits, hs] at hfits
    refine whole ?_
    rw [program, hfits.1, List.zip_nil_left, List.drop_nil, List.append_nil]
    exact (List.prefix_append _ _).trans hst.pre
  | waitForSerializeAndRestart | cacheFlush =>
    simp only [Stage, hs] at hst
    exact alone hst.1
  | flushForHalt | halt =>
    simp only [Stage, hs] at hst
    simp only [Core.Fits, hs] at hfits
    exact boot hst.1 hfits
  | haltWaitForRestart =>
    simp only [Stage, hs] at hst
    simp only [Core.Fits, hs] at hfits
    exact boot hst hfits
  | dead => simp only [Stage, hs] at hst

theorem program_links (hl : Links s) : ∀ x ∈ program s, Resolved x.1 x.2 := by
  intro x hx
  obtain hx | hx := List.mem_append.mp hx
  · exact hl.left x hx
  · exact List.forall₂_zip hl.rob (List.mem_of_mem_drop hx)

/-- The outcomes of a path that is predicted correctly are the predictions. -/
theorem outcomes_eq (hp : Placed s) {n : Nat} (hn : n ≤ (program s).length)
    (hpath : ∀ x ∈ (program s).take n, onPath x = true) :
    ((program s).take n).flatMap outcome = (s.ledger.fetched.take n).flatMap FetchInsn.bits := by
  rw [← Hw.take_eq_of_takeWhile (program_order hp) hn hpath]
  refine Hw.flatMap_congr_map fun x hx => ?_
  exact (program_links hp.links x (List.mem_of_mem_take hx)).outcome (hpath x hx)

theorem histLaw_of_kept (h : Kept s) (hp : Placed s) : HistLaw s where
  order := program_order hp
  fetch g hg hn hpath := by
    obtain ⟨-, -, -, hhist, -⟩ := h.groups g hg
    rw [hhist, outcomes_eq hp hn hpath]
  index g hg := by
    obtain ⟨h1, h2, -, -, hindex⟩ := h.groups g hg
    refine ⟨h1, h2, fun hn hpath => ?_⟩
    rw [hindex, outcomes_eq hp hn hpath]
  arch := h.arch
  restart hra := by
    obtain ⟨-, -, hfetched, hleft, -, -⟩ := hp.sync.acked hra
    refine ⟨h.restart hra, ?_⟩
    rw [h.spec, h.arch, hfetched, hleft]
    rfl

/-- Once the older instructions have left, all on the path, the architectural history is the
one that the group was fetched with. -/
theorem HistLaw.retired (h : HistLaw s) {g : Group} (hg : g ∈ s.ledger.groups)
    (hleft : s.ledger.left.length = g.older) (hpath : ∀ x ∈ s.ledger.left, onPath x = true) :
    archNext s = g.hist := by
  have htake : (program s).take g.older = s.ledger.left := by
    rw [program, ← hleft, List.take_left]
  have hle : g.older ≤ (program s).length := by
    rw [program, List.length_append, hleft]
    exact Nat.le_add_right _ _
  rw [h.arch, h.fetch g hg hle (by rwa [htake]), htake]

end Step

/-- **The two histories.**  After every run whose cycles meet the condition, the speculative
history at a fetch is what the architectural history becomes, and behind a restart the two
are equal. -/
theorem histories_agree (p : Params) (tlb : Fin Iss.numTlbEntries → Mmu.TlbStored)
    (micro : Fin Mmu.numUitlbEntries → Mmu.MicroEntry) (is : List HistIn)
    (h : Hw.RunOk (histNext p) (HistOk p) (histReset tlb micro) is) :
    HistLaw (Hw.run (histNext p) (histReset tlb micro) is) := by
  have hinv : Placed (Hw.run (histNext p) (histReset tlb micro) is) ∧
      Kept (Hw.run (histNext p) (histReset tlb micro) is) :=
    Hw.RunOk.invariant (I := fun s => Placed s ∧ Kept s)
      (fun _ _ hs hok => ⟨placed_next hs.1 hok.fresh, kept_next hs.2 hs.1 hok⟩)
      ⟨placed_reset tlb micro, kept_reset tlb micro⟩ h
  exact histLaw_of_kept hinv.2 hinv.1

section Runs

open Core (Op Uop UopFields Input IntResult machine quiet bswap32 field decodeSlot)

/-- A word whose operation has only the fields of a branch. -/
def Word.of (raw : BitVec 32) (op : Op) (isBr likely isInt : Bool)
    (hok : ∀ pc t, ({ UopFields.blank op pc t with
      isBr, hasDelaySlot := isBr, hasNullifyingDelaySlot := likely, isInt } : UopFields).Ok)
    (hop : op ≠ .irq ∧ op.isXflush = false)
    (hbr : (decodeSlot true (bswap32 raw)).raises = false ∧
      isBr = (decodeSlot true (bswap32 raw)).hasDelaySlot)
    (hjump : op = .j → field (bswap32 raw) 26 6 = 2) : Word where
  raw
  decode pc t := ⟨_, hok pc t⟩
  own _ _ := hop
  branch _ _ _ := ⟨true, hbr⟩
  jump _ _ := hjump
  slot _ _ := id

def Word.nop : Word :=
  .of 0 .nop false false false (fun _ _ => by constructor <;> simp [UopFields.blank, Op.serializes,
    Op.isXflush, Op.writesNow, Op.moves]) (by decide) (by decide) (by decide)

/-- `J 0x1010`. -/
def Word.j : Word :=
  .of 0x04040008 .j true false true (fun _ _ => by constructor <;> simp [UopFields.blank,
    Op.serializes, Op.isXflush, Op.jumps, Op.writesNow, Op.moves])
    (by decide) (by decide) (by decide)

/-- `BEQ $1, $0, 1`. -/
def Word.beq : Word :=
  .of 0x01002010 .other true false true (fun _ _ => by constructor <;> simp [UopFields.blank,
    Op.serializes, Op.isXflush, Op.jumps, Op.writesNow, Op.moves])
    (by decide) (by decide) (by decide)

/-- `BGEZALL $1, 1`. -/
def Word.bgezall : Word :=
  .of 0x01003304 .bal true true true (fun _ _ => by constructor <;> simp [UopFields.blank,
    Op.serializes, Op.isXflush, Op.jumps, Op.writesNow, Op.moves])
    (by decide) (by decide) (by decide)

/-- `ADD $1, $1, $1`. -/
def Word.add : Word :=
  .of 0x20082100 .other false false true (fun _ _ => by constructor <;> simp [UopFields.blank,
    Op.serializes, Op.isXflush, Op.writesNow, Op.moves]) (by decide) (by decide) (by decide)

/-- The operation of a fetch that misses in the TLB. -/
def tlbMiss : FaultUop where
  uop :=
    { toUopFields := .blank .fetchTlbMiss 0 0
      ok := by constructor <;> simp [UopFields.blank, Op.serializes, Op.isXflush, Op.writesNow,
        Op.moves] }
  own := by decide
  faults := rfl
  slot := by decide

/-- A cycle with a line that has the words, of which no branch is predicted taken. -/
def cycle (w0 w1 w2 w3 : Word) (c : Input) : HistIn where
  fetch :=
    { sr := 0, asid := 0, tlbEntryIn := none, restartValid := false, restartPc := 0
      flushReq := false, flushLineReq := false, fqFull := false, memRspValid := false
      lineHit := true, predicted := 0, two := false, initDone := true, flushDone := true }
  line :=
    { word := fun | 0 => w0 | 1 => w1 | 2 => w2 | 3 => w3
      predVec := fun _ => false, returnTo := 0, indirect := 0
      badVa := false, fault := tlbMiss }
  core := c

/-- A cycle with a line of `NOP`s. -/
def plain (c : Input) : HistIn := cycle .nop .nop .nop .nop c

/-- From reset to the first access. -/
def fetchFrom (pc : BitVec 64) : List HistIn :=
  [plain { quiet with l1iFlushComplete := true, l1dFlushComplete := true, l2FlushComplete := true },
    plain quiet, plain quiet, plain { quiet with resume := true, resumePc := pc },
    plain quiet, plain quiet]

/-- The jump from 0x1000 to a line at 0x1010 that begins with two given words. -/
def jumpTo (w0 w1 : Word) : List HistIn :=
  fetchFrom 0xffffffff80001000 ++
    [cycle .j .nop .nop .nop quiet, cycle .j .nop .nop .nop quiet, cycle w0 w1 .nop .nop quiet,
      plain quiet, plain quiet]

/-- The state after reset, with an empty TLB. -/
def start : HistState := histReset (fun _ => {}) fun _ => {}

/-- The branch is the first of its group, and takes a bit. -/
theorem histories_agree_first :
    Hw.RunOk (histNext machine) (HistOk machine) start
        (jumpTo .beq .nop ++ [plain { quiet with start := some 0 },
          plain { quiet with intDone := some (0, IntResult.of false 0 false 0) }, plain quiet]) ∧
      HistLaw (Hw.run (histNext machine) start
        (jumpTo .beq .nop ++ [plain { quiet with start := some 0 },
          plain { quiet with intDone := some (0, IntResult.of false 0 false 0) }, plain quiet])) :=
  ⟨by decide +kernel, histories_agree machine _ _ _ (by decide +kernel)⟩

/-- A branch that is not taken, second in its group, behind a jump. -/
def secondInGroup : List HistIn :=
  jumpTo .nop .beq ++ [plain { quiet with start := some 1 },
    plain { quiet with intDone := some (0, IntResult.of false 0 false 0) }]

/-- The group behind the branch is fetched with the history in front of it. -/
theorem second_branch_drifts : ¬ ∀ (p : Params) (tlb : Fin Iss.numTlbEntries → Mmu.TlbStored)
    (micro : Fin Mmu.numUitlbEntries → Mmu.MicroEntry) (is : List HistIn),
      HistLaw (Hw.run (histNext p) (histReset tlb micro) is) := by
  intro h
  have hlaw := h machine (fun _ => {}) (fun _ => {}) secondInGroup
  have hhist := hlaw.fetch ⟨4, 1, 2, 1⟩ (by decide +kernel) (by decide +kernel) (by decide +kernel)
  revert hhist
  decide +kernel

/-- A branch with another in its slot is mispredicted. -/
def branchInSlot : List HistIn :=
  fetchFrom 0xffffffff8000100c ++
    [cycle .nop .nop .nop .beq quiet, cycle .beq .nop .nop .nop quiet, plain quiet, plain quiet,
      plain { quiet with start := some 0 },
      plain { quiet with
        start := some 1
        intDone := some (0, IntResult.of false 0xffffffff80002000 true 0) },
      plain { quiet with intDone := some (1, IntResult.of false 0 false 0) }, plain quiet,
      plain quiet]

/-- The slot retires behind the acknowledge. -/
theorem slot_branch_drifts :
    Hw.RunOk (histNext machine) (fun s i => Counted s i ∧ ¬ StaleAck s i) start branchInSlot ∧
      ¬ HistLaw (Hw.run (histNext machine) start branchInSlot) := by
  refine ⟨by decide +kernel, fun h => ?_⟩
  have hrestart := (h.restart (by decide +kernel)).2
  revert hrestart
  decide +kernel

/-- A mispredicted branch is taken and its slot overflows late, while the fetch waits for a
line behind a jump. -/
def overflowInSlot : List HistIn :=
  fetchFrom 0xffffffff80001000 ++
    [cycle .bgezall .add .nop .nop quiet, cycle .bgezall .add .nop .nop quiet, plain quiet,
      plain quiet, plain { quiet with start := some 0 },
      plain { quiet with intDone := some (0, IntResult.of false 0xffffffff80002000 true 0) },
      plain quiet, plain quiet, plain quiet, cycle .j .nop .nop .nop quiet,
      cycle .j .nop .nop .nop { quiet with start := some 0 },
      { plain { quiet with intDone := some (0, ⟨true, 0, false, false, true, false, 0⟩) } with
        fetch := { (plain quiet).fetch with lineHit := false } }] ++
    List.replicate 6 (plain quiet) ++
    [{ plain quiet with fetch := { (plain quiet).fetch with memRspValid := true } }, plain quiet]

/-- The core goes on with the acknowledge of the branch, and the jump retires behind the
exception. -/
theorem stale_ack_drifts :
    Hw.RunOk (histNext machine) (fun s i => Counted s i ∧ ¬ LateBranch machine s i) start
        overflowInSlot ∧
      ¬ HistLaw (Hw.run (histNext machine) start overflowInSlot) := by
  refine ⟨by decide +kernel, fun h => ?_⟩
  have hrestart := (h.restart (by decide +kernel)).2
  revert hrestart
  decide +kernel

end Runs

end Frontend

end R9999
