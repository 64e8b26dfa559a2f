import R9999.Frontend.Steer
import R9999.Frontend.HistLaw
import R9999.Exec.Agree

/-!
# The fetch stream

The instructions that `l1i.sv` pushes between two clears of its queue.  The address of an
instruction follows from those of the two before it: it is four more than the last one, or
the predicted target behind the slot of an instruction that is predicted taken.  The target
of a jump or a branch that goes through no register is the one that the interpreter has.

The stream is lost in four ways.  `IDLE` acknowledges a restart without clearing
`r_delay_slot`, which every other state does.  The region of a J or a JAL is that of its own
address and not that of its slot.  Behind a fetch that faults `r_pc` stays where it is.  The
slot of a branch that is a slot itself is not marked.

The caches, the predictor, the fill of the fetch queue, the flushes and the restarts are
inputs.
-/

namespace R9999

namespace Frontend

open Mmu (Fetch FetchIn Push)
open Iss (Jump jumpOf)

/-- An instruction as it is pushed (`insn_fetch_t`), with the fields that say where it is
from and where the fetch goes. -/
structure Fetched where
  insn : FetchInsn
  pc : BitVec 64
  predTarget : BitVec 64
  data : BitVec 32
  /-- `r_delay_slot` in the cycle of the push; the second of a pair is no slot. -/
  slot : Bool
  unpredicted : insn.missed = true → insn.pred = false

namespace Line

variable (l : Line) (pc : BitVec 64) (slot full2 : Bool) (rPc : BitVec 64)

/-- `t_insn` of a hit. -/
def fetchedFirst : Fetched where
  insn := l.first pc slot full2 rPc
  pc := pc
  predTarget := l.nextPc pc slot full2 rPc
  data := l.data (idx pc)
  slot := slot
  unpredicted h := by cases h

/-- `t_insn2`. -/
def fetchedSecond (h2 : l.two pc slot full2 = true) : Fetched where
  insn := l.second pc slot full2 rPc h2
  pc := pc + 4
  predTarget := if l.gbTake1 pc slot full2 then l.nextPc pc slot full2 rPc else 0
  data := l.data (idx pc + 1)
  slot := false
  unpredicted h := by cases h

/-- `t_insn` of a fetch that faults, where `n_pc` is the next address. -/
def fetchedFault : Fetched where
  insn := l.missedInsn pc
  pc := pc
  predTarget := pc + 4
  data := l.data (idx pc)
  slot := slot
  unpredicted _ := rfl

/-- The group that is pushed, the newest first. -/
def fetched : List Fetched :=
  if h2 : l.two pc slot full2 = true then
    [l.fetchedSecond pc slot full2 rPc h2, l.fetchedFirst pc slot full2 rPc]
  else [l.fetchedFirst pc slot full2 rPc]

/-- It is the group that the core is given. -/
theorem fetched_insn :
    ((l.fetched pc slot full2 rPc).map (·.insn)).reverse = l.pushes pc slot full2 rPc := by
  unfold fetched pushes
  split <;> rfl

/-- The first of the group is the oldest. -/
theorem fetched_oldest : (l.fetched pc slot full2 rPc).reverse.head? =
    some (l.fetchedFirst pc slot full2 rPc) := by
  unfold fetched
  split <;> rfl

end Line

/-- The fetch unit, with what it has pushed. -/
structure StreamState where
  fetch : Fetch
  /-- `r_delay_slot`. -/
  delaySlot : Bool
  /-- `restart_pc` at the last acknowledge. -/
  start : BitVec 64
  /-- What has been pushed since the queue was cleared, the newest first. -/
  stream : List Fetched

/-- What a cycle of the fetch unit is given. -/
structure StreamIn where
  fetch : FetchIn
  line : Line
  /-- `fq_full2`. -/
  full2 : Bool

section Machine

variable (s : StreamState) (i : StreamIn)

/-- What the control is given, with the next pc. -/
def steered : FetchIn :=
  { i.fetch with
    predicted := i.line.nextPc s.fetch.cachePc s.delaySlot i.full2 s.fetch.pc
    two := i.line.two s.fetch.cachePc s.delaySlot i.full2 }

/-- What the cycle pushes, the newest first. -/
def fetched : List Fetched :=
  match s.fetch.pushes (steered s i) with
  | .none => []
  | .fault => [i.line.fetchedFault s.fetch.cachePc s.delaySlot]
  | .group => i.line.fetched s.fetch.cachePc s.delaySlot i.full2 s.fetch.pc

/-- `n_delay_slot`: an acknowledge clears it, but in `IDLE`. -/
def streamSlot : Bool :=
  if s.fetch.acks (steered s i) then decide (s.fetch.state = .idle) && s.delaySlot
  else
    match s.fetch.pushes (steered s i) with
    | .group => i.line.slotNext s.fetch.cachePc s.delaySlot i.full2
    | _ => s.delaySlot

/-- A clock cycle. -/
def streamNext : StreamState where
  fetch := s.fetch.tick (steered s i)
  delaySlot := streamSlot s i
  start := if s.fetch.acks (steered s i) then i.fetch.restartPc else s.start
  stream := if s.fetch.clears (steered s i) then [] else fetched s i ++ s.stream

end Machine

/-- The reset values. -/
def streamReset (tlb : Fin Iss.numTlbEntries → Mmu.TlbStored)
    (micro : Fin Mmu.numUitlbEntries → Mmu.MicroEntry) : StreamState where
  fetch := Fetch.reset tlb micro
  delaySlot := false
  start := 0
  stream := []

section Law

/-- A jump or a branch that goes through no register goes to the predicted target. -/
def Fetched.OnTarget (a : Fetched) : Prop :=
  ∀ (g : Iss.State) (j : Jump), g.pc = a.pc → jumpOf a.data (Iss.decode a.data) g = some j →
    Iss.decode a.data ≠ .jr → Iss.decode a.data ≠ .jalr → a.predTarget = j.target

/-- The address behind the one of an instruction, with those that were pushed before it. -/
def follows (at_ : BitVec 64) : List Fetched → BitVec 64
  | a :: _ => if a.insn.pred then a.predTarget else at_ + 4
  | [] => at_ + 4

/-- The address at which a stream goes on: behind a slot of an instruction that is predicted
taken it is the predicted target, and four more than the last one otherwise. -/
def nextOf (start : BitVec 64) : List Fetched → BitVec 64
  | [] => start
  | b :: older => follows b.pc older

/-- The stream of a fetch. -/
structure StreamLaw (start : BitVec 64) (stream : List Fetched) : Prop where
  /-- An instruction is where those before it lead, the first at the address of the restart. -/
  order : ∀ a older, a :: older <:+ stream → a.pc = nextOf start older
  /-- The first is no slot. -/
  first : ∀ a, [a] <:+ stream → a.slot = false
  /-- What is predicted taken goes to the predicted target. -/
  direct : ∀ a ∈ stream, a.insn.pred = true → a.OnTarget

/-- A region of 256 MB ends between a jump and its slot. -/
def Crosses (pc : BitVec 64) : Prop :=
  pc.extractLsb' 28 36 ≠ (pc + 4).extractLsb' 28 36

/-- A J or a JAL of the group is the last word of a region. -/
def CrossingJump (l : Line) (pc : BitVec 64) (slot full2 : Bool) : Prop :=
  (l.pd (Line.idx pc) = 3 ∨ l.pd (Line.idx pc) = 5) ∧ Crosses pc ∨
    l.gbTake1 pc slot full2 = true ∧ l.pd1 pc = 3 ∧ Crosses (pc + 4)

/-- One instruction has been pushed behind a fetch that faulted, from another address. -/
def PastFault : List Fetched → Prop
  | b :: a :: _ => a.insn.missed = true ∧ b.pc ≠ a.pc
  | _ => False

/-- An address is that of the slot of an instruction that is predicted to go elsewhere. -/
def TakenSlot (pc : BitVec 64) : List Fetched → Prop
  | a :: _ => a.insn.pred = true ∧ a.predTarget ≠ pc + 4
  | [] => False

variable (s : StreamState) (i : StreamIn)

/-- `IDLE` acknowledges a restart while a slot is due. -/
def StaleSlot : Prop :=
  s.fetch.acks (steered s i) = true ∧ s.fetch.state = .idle ∧ s.delaySlot = true

/-- Something is pushed two behind a fetch that faulted. -/
def PushPastFault : Prop := s.fetch.pushes (steered s i) ≠ .none ∧ PastFault s.stream

/-- A pair is pushed where the slot of a taken branch goes alone. -/
def PairInSlot : Prop :=
  s.fetch.pushes (steered s i) = .group ∧
    i.line.two s.fetch.cachePc s.delaySlot i.full2 = true ∧ TakenSlot s.fetch.cachePc s.stream

/-- A J or a JAL is pushed that leaves its region. -/
def LeavesRegion : Prop :=
  s.fetch.pushes (steered s i) = .group ∧
    CrossingJump i.line s.fetch.cachePc s.delaySlot i.full2

/-- The condition on a cycle. -/
structure StreamOk : Prop where
  idle : ¬ StaleSlot s i
  fault : ¬ PushPastFault s i
  pair : ¬ PairInSlot s i
  region : ¬ LeavesRegion s i

instance (pc : BitVec 64) : Decidable (Crosses pc) :=
  inferInstanceAs (Decidable (_ ≠ _))

instance (l : Line) (pc : BitVec 64) (slot full2 : Bool) : Decidable (CrossingJump l pc slot full2) :=
  inferInstanceAs (Decidable (_ ∧ _ ∨ _))

instance : ∀ stream, Decidable (PastFault stream)
  | [] | [_] => inferInstanceAs (Decidable False)
  | _ :: _ :: _ => inferInstanceAs (Decidable (_ ∧ _))

instance (pc : BitVec 64) : ∀ stream, Decidable (TakenSlot pc stream)
  | [] => inferInstanceAs (Decidable False)
  | _ :: _ => inferInstanceAs (Decidable (_ ∧ _))

instance : Decidable (StaleSlot s i) := inferInstanceAs (Decidable (_ ∧ _))

instance : Decidable (PushPastFault s i) := inferInstanceAs (Decidable (_ ∧ _))

instance : Decidable (PairInSlot s i) := inferInstanceAs (Decidable (_ ∧ _))

instance : Decidable (LeavesRegion s i) := inferInstanceAs (Decidable (_ ∧ _))

instance : Decidable (StreamOk s i) :=
  decidable_of_iff (¬ StaleSlot s i ∧ ¬ PushPastFault s i ∧ ¬ PairInSlot s i ∧ ¬ LeavesRegion s i)
    ⟨fun h => ⟨h.1, h.2.1, h.2.2.1, h.2.2.2⟩, fun h => ⟨h.idle, h.fault, h.pair, h.region⟩⟩

end Law

section Targets

variable {l : Line} {pc rPc : BitVec 64} {slot full2 : Bool} {w : Iss.Word} {g : Iss.State} {j : Jump}

theorem jumpTarget_eq : Line.jumpTarget pc w = Exec.fetchRegion w pc := by
  have hindex : w.setWidth 26 = w.index := BitVec.setWidth_eq_extractLsb' (by decide)
  apply BitVec.eq_of_getLsbD_eq
  intro k _
  unfold Line.jumpTarget Exec.fetchRegion
  rw [hindex]
  simp only [BitVec.getLsbD_append]
  by_cases hlow : k < 2
  · simp [hlow, show k < 28 by omega]
  · by_cases hmid : k < 28
    · simp [hlow, hmid, show k - 2 < 26 by omega]
    · simp [hlow, hmid, show ¬ k - 2 < 26 by omega, show k - 2 - 26 = k - 28 by omega]

theorem branchTarget_eq : Line.branchTarget pc w = Exec.branchTarget w pc := by
  unfold Line.branchTarget Exec.branchTarget Iss.Word.simm
  rw [BitVec.setWidth_eq_extractLsb' (by decide)]

/-- BC1F and BC1T are 1, the likely ones 2. -/
theorem predecode_bc1 (hop : w.opcode.toNat = 17) (hrs : w.rs = 8) :
    Core.predecode (Core.bswap32 w) ∈ [(1 : BitVec 4), 2, 8, 9] := by
  have hfield : Core.field w 26 6 = 17 := hop
  have hfield' : Core.field w 21 5 = 8 := congrArg BitVec.toNat hrs
  unfold Core.predecode
  rw [Exec.bswap32_bswap32]
  simp only [hfield, hfield', if_true]
  split <;> decide

/-- The predecode bits of a jump or a branch that goes through no register tell what its target
is. -/
theorem direct_target (hj : jumpOf w (Iss.decode w) g = some j) (hjr : Iss.decode w ≠ .jr)
    (hjalr : Iss.decode w ≠ .jalr) :
    Core.predecode (Core.bswap32 w) ∈ [(3 : BitVec 4), 5] ∧ j.target = Iss.regionTarget w g ∨
      Core.predecode (Core.bswap32 w) ∈ [(1 : BitVec 4), 2, 8, 9] ∧
        j.target = Exec.branchTarget w g.pc := by
  revert hj hjr hjalr
  unfold Iss.decode
  split
  case h_1 =>
    -- the jumps among them go through a register
    unfold Iss.decodeSpecial
    split
    all_goals
      intro hj hjr hjalr
      first
      | exact absurd rfl hjr
      | exact absurd rfl hjalr
      | cases hj
  case h_2 hop =>
    rw [Exec.predecode_regimm hop]
    unfold Iss.decodeRegimm
    split
    all_goals
      intro hj _ _
      cases hj
    all_goals
      rw [‹w.rt.toNat = _›]
      exact .inr ⟨by decide, rfl⟩
  case h_5 hop =>
    rintro ⟨⟩ - -
    rw [Exec.predecode_beq hop]
    refine .inr ⟨?_, rfl⟩
    split <;> decide
  case h_17 =>
    intro hj
    have hnone : jumpOf w (Iss.decodeCoproc0 w) g = none := by
      unfold Iss.decodeCoproc0
      split
      · split <;> rfl
      split
      · rfl
      split
      · rfl
      · split <;> rfl
    rw [hnone] at hj
    cases hj
  case h_18 hop =>
    intro hj _ _
    by_cases hrs : w.rs = 8
    · refine .inr ⟨predecode_bc1 hop hrs, ?_⟩
      revert hj
      unfold Iss.decodeCoproc1
      rw [if_pos hrs]
      split
      all_goals
        rintro ⟨⟩
        rfl
    · have hnone : jumpOf w (Iss.decodeCoproc1 w) g = none := by
        unfold Iss.decodeCoproc1
        rw [if_neg hrs]
        repeat' split
        all_goals rfl
      rw [hnone] at hj
      cases hj
  all_goals
    intro hj _ _
    cases hj
  all_goals
    rw [Exec.predecode_opcode ‹w.opcode.toNat = _› (by decide)]
    first
    | exact .inl ⟨by decide, rfl⟩
    | exact .inr ⟨by decide, rfl⟩

/-- The predecode bits are of the word that is pushed. -/
theorem Line.pd_data (l : Line) (k : Fin 4) :
    l.pd k = Core.predecode (Core.bswap32 (l.data k)) := by
  rw [Line.data, Exec.bswap32_bswap32]
  rfl

/-- The first of a group is predicted to go where it goes, but a J or a JAL that leaves its
region. -/
theorem first_onTarget (htake : l.takeBr pc = true) (hcross : ¬ CrossingJump l pc slot full2) :
    (l.fetchedFirst pc slot full2 rPc).OnTarget := by
  intro g j hg hj hjr hjalr
  have hnext : l.nextPc pc slot full2 rPc = l.target pc := by rw [Line.nextPc, if_pos htake]
  replace hg : g.pc = pc := hg
  show l.nextPc pc slot full2 rPc = j.target
  rw [hnext, Line.target]
  obtain ⟨hpd, ht⟩ | ⟨hpd, ht⟩ := direct_target hj hjr hjalr
  all_goals
    replace hpd := (l.pd_data (Line.idx pc)).symm ▸ hpd
    simp only [List.mem_cons, List.not_mem_nil, or_false] at hpd
  · have hstays : ¬ Crosses pc := fun h => hcross (.inl ⟨hpd, h⟩)
    rw [if_pos hpd.symm, jumpTarget_eq, ht, ← hg]
    exact Exec.region_iff.mpr (by rw [hg]; exact not_not.mp hstays)
  · rw [ht, hg]
    obtain hpd | hpd | hpd | hpd := hpd <;> simp [hpd, branchTarget_eq, Line.fetchedFirst]

/-- So is the second of a pair. -/
theorem second_onTarget (h2 : l.two pc slot full2 = true) (htake : l.gbTake1 pc slot full2 = true)
    (hcross : ¬ CrossingJump l pc slot full2) :
    (l.fetchedSecond pc slot full2 rPc h2).OnTarget := by
  intro g j hg hj hjr hjalr
  have hnext : (l.fetchedSecond pc slot full2 rPc h2).predTarget = l.target1 pc := by
    show (if l.gbTake1 pc slot full2 then l.nextPc pc slot full2 rPc else 0) = l.target1 pc
    rw [if_pos htake, Line.nextPc, (Line.gbTake1_two htake).2.1, if_neg (by decide), if_pos htake]
  replace hg : g.pc = pc + 4 := hg
  rw [hnext, Line.target1]
  obtain ⟨hpd, ht⟩ | ⟨hpd, ht⟩ := direct_target hj hjr hjalr
  all_goals
    replace hpd := (l.pd_data (Line.idx pc + 1)).symm ▸ hpd
    simp only [List.mem_cons, List.not_mem_nil, or_false] at hpd
  · have h3 : l.pd1 pc = 3 := by
      simp only [Line.gbTake1, Line.gbOk1, Line.pd1, Bool.and_eq_true, Bool.or_eq_true,
        decide_eq_true_eq] at htake
      obtain hpd | hpd := hpd
      · exact hpd
      · simp [hpd] at htake
    have hstays : ¬ Crosses (pc + 4) := fun h => hcross (.inr ⟨htake, h3, h⟩)
    rw [if_pos h3, jumpTarget_eq, ht, ← hg]
    exact Exec.region_iff.mpr (by rw [hg]; exact not_not.mp hstays)
  · rw [ht, hg]
    obtain hpd | hpd | hpd | hpd := hpd <;>
      simp [Line.pd1, hpd, branchTarget_eq, Line.fetchedSecond]

/-- The next pc of a pair. -/
theorem nextPc_two (h2 : l.two pc slot full2 = true) :
    l.takeBr pc = false ∧ l.nextPc pc slot full2 rPc =
      if l.gbTake1 pc slot full2 then l.target1 pc else pc + 12 := by
  have htake : l.takeBr pc = false := by
    by_contra ht
    rw [Line.alone_of_takeBr (by simpa using ht)] at h2
    cases h2
  exact ⟨htake, by simp [Line.nextPc, htake, h2]⟩

/-- The next pc of an instruction that is pushed alone. -/
theorem nextPc_one (h2 : l.two pc slot full2 = false) : l.nextPc pc slot full2 rPc =
    if l.takeBr pc then l.target pc else rPc + 4 := by
  have htake : l.gbTake1 pc slot full2 = false := by
    by_contra ht
    rw [(Line.gbTake1_two (by simpa using ht)).1] at h2
    cases h2
  simp [Line.nextPc, htake, h2]

end Targets

section Step

variable {s : StreamState} {i : StreamIn} {start : BitVec 64} {stream : List Fetched} {a : Fetched}

theorem StreamLaw.nil : StreamLaw start [] where
  order a older h := by cases List.suffix_nil.mp h
  first a h := by cases List.suffix_nil.mp h
  direct a h := by cases h

/-- What a push has to meet. -/
theorem StreamLaw.push (h : StreamLaw start stream) (hpc : a.pc = nextOf start stream)
    (hslot : stream = [] → a.slot = false) (htarget : a.insn.pred = true → a.OnTarget) :
    StreamLaw start (a :: stream) where
  order b older hb := by
    obtain hb | hb := List.suffix_cons_iff.mp hb
    · cases hb
      exact hpc
    · exact h.order b older hb
  first b hb := by
    obtain hb | hb := List.suffix_cons_iff.mp hb
    · cases hb
      exact hslot rfl
    · exact h.first b hb
  direct b hb hpred := by
    obtain rfl | hb := List.mem_cons.mp hb
    · exact htarget hpred
    · exact h.direct b hb hpred

/-- The control is where the stream goes on, with the address behind it in `r_pc`, which is not
that address behind a fetch that faulted. -/
structure Steers (s : StreamState) : Prop where
  addr : s.fetch.addr = nextOf s.start s.stream
  behind : s.fetch.behind = follows s.fetch.addr s.stream ∨
    ∃ a older, s.stream = a :: older ∧ a.insn.missed = true ∧ s.fetch.behind = a.pc + 4

/-- What every cycle keeps. -/
structure StreamInv (s : StreamState) : Prop where
  law : StreamLaw s.start s.stream
  empty : s.fetch.running = true → s.stream = [] → s.delaySlot = false
  steers : s.fetch.running = true → ¬ PastFault s.stream → Steers s

/-- One instruction pushed leaves the next one where `r_pc` says. -/
theorem Steers.turn (h : Steers s) (hpc : a.pc = s.fetch.addr)
    (hfault : ¬ PastFault (a :: s.stream)) : s.fetch.behind = follows a.pc s.stream := by
  obtain hb | ⟨b, older, hstream, hmissed, hb⟩ := h.behind
  · rw [hb, hpc]
  · have hsame : a.pc = b.pc := by
      by_contra hne
      refine hfault ?_
      rw [hstream]
      exact ⟨hmissed, hne⟩
    rw [hb, hstream, hsame]
    simp [follows, b.unpredicted hmissed]

/-- A cycle that clears the queue, for a flush or a restart. -/
theorem streamInv_clear (hok : StreamOk s i) (hclear : s.fetch.clears (steered s i) = true) :
    StreamInv (streamNext s i) := by
  have hstream : (streamNext s i).stream = [] := by simp [streamNext, hclear]
  have acked (hrun : (streamNext s i).fetch.running = true) :
      s.fetch.acks (steered s i) = true := by
    cases Fetch.tick_handshake s.fetch (steered s i) with
    | wait _ hno =>
      rw [hclear] at hno
      cases hno
    | flush _ _ _ hstop =>
      rw [show (streamNext s i).fetch.running = false from hstop] at hrun
      cases hrun
    | restart hack => exact hack
  refine ⟨?_, ?_, ?_⟩
  · rw [hstream]
    exact .nil
  · intro hrun _
    have hack := acked hrun
    show streamSlot s i = false
    rw [streamSlot, if_pos hack]
    cases hslot : s.delaySlot with
    | false => rw [Bool.and_false]
    | true =>
      have hidle : s.fetch.state ≠ .idle := fun hidle => hok.idle ⟨hack, hidle, hslot⟩
      simp [hidle]
  · intro hrun _
    have hack := acked hrun
    obtain ⟨haddr, hbehind⟩ := Fetch.acks_goes hack
    have hstart : (streamNext s i).start = i.fetch.restartPc := by simp [streamNext, hack]
    replace haddr : (streamNext s i).fetch.addr = i.fetch.restartPc := haddr
    replace hbehind : (streamNext s i).fetch.behind = i.fetch.restartPc + 4 := hbehind
    refine ⟨?_, .inl ?_⟩
    · rw [hstream, haddr, hstart, nextOf]
    · rw [hstream, haddr, hbehind, follows]

/-- Behind an instruction that is no slot of a taken one the stream goes on in sequence. -/
theorem follows_slot {pc : BitVec 64} (h : ¬ TakenSlot pc stream) :
    follows pc stream = pc + 4 := by
  cases stream with
  | nil => rfl
  | cons a older =>
    show (if a.insn.pred then a.predTarget else pc + 4) = pc + 4
    split
    next hpred => exact not_not.mp fun hne => h ⟨hpred, hne⟩
    next => rfl

/-- A cycle that does not clear the queue. -/
theorem streamNext_go (hclear : s.fetch.clears (steered s i) = false) :
    s.fetch.acks (steered s i) = false ∧ (streamNext s i).start = s.start ∧
      (streamNext s i).stream = fetched s i ++ s.stream ∧
      (streamNext s i).fetch.running = s.fetch.running := by
  cases Fetch.tick_handshake s.fetch (steered s i) with
  | wait hack _ _ _ _ hrun =>
    exact ⟨hack, by simp [streamNext, hack], by simp [streamNext, hclear], hrun⟩
  | flush _ hc =>
    rw [hclear] at hc
    cases hc
  | restart _ hc =>
    rw [hclear] at hc
    cases hc

/-- A cycle that pushes nothing. -/
theorem streamInv_wait (h : StreamInv s) (hclear : s.fetch.clears (steered s i) = false)
    (hpush : s.fetch.pushes (steered s i) = .none)
    (hkeep : s.fetch.running = true → (streamNext s i).fetch.addr = s.fetch.addr ∧
      (streamNext s i).fetch.behind = s.fetch.behind) : StreamInv (streamNext s i) := by
  obtain ⟨hack, hstart, hstream, hrun⟩ := streamNext_go hclear
  have hnil : fetched s i = [] := by simp [fetched, hpush]
  rw [hnil, List.nil_append] at hstream
  refine ⟨?_, ?_, ?_⟩
  · rw [hstart, hstream]
    exact h.law
  · rw [hrun, hstream]
    intro hr he
    show streamSlot s i = false
    simp [streamSlot, hack, hpush, h.empty hr he]
  · rw [hrun, hstream]
    intro hr hf
    obtain ⟨haddr, hbehind⟩ := hkeep hr
    have hs := h.steers hr hf
    refine ⟨?_, ?_⟩
    · rw [hstart, hstream, haddr]
      exact hs.addr
    · rw [hstream, haddr, hbehind]
      exact hs.behind

/-- A stream that is not empty says nothing about the flag. -/
theorem StreamInv.of_cons {t : StreamState} (hstream : t.stream = a :: stream)
    (hlaw : StreamLaw t.start (a :: stream)) (hsteers : ¬ PastFault (a :: stream) → Steers t) :
    StreamInv t := by
  refine ⟨?_, ?_, ?_⟩
  · rwa [hstream]
  · rw [hstream]
    intro _ hnil
    cases hnil
  · rw [hstream]
    exact fun _ => hsteers

/-- A cycle that pushes a fetch that faults. -/
theorem streamInv_fault (h : StreamInv s) (hs : Steers s) (hrun : s.fetch.running = true)
    (hclear : s.fetch.clears (steered s i) = false)
    (hpush : s.fetch.pushes (steered s i) = .fault) (hcache : s.fetch.addr = s.fetch.cachePc)
    (haddr : (streamNext s i).fetch.addr = s.fetch.behind)
    (hbehind : (streamNext s i).fetch.behind = s.fetch.cachePc + 4) :
    StreamInv (streamNext s i) := by
  obtain ⟨-, hstart, hstream, -⟩ := streamNext_go hclear
  let a := i.line.fetchedFault s.fetch.cachePc s.delaySlot
  have hone : fetched s i = [a] := by simp [fetched, hpush, a]
  rw [hone, List.singleton_append] at hstream
  refine .of_cons hstream ?_ fun hf => ⟨?_, .inr ⟨a, s.stream, hstream, rfl, hbehind⟩⟩
  · rw [hstart]
    refine h.law.push (hcache.symm.trans hs.addr) (h.empty hrun) ?_
    intro hp
    cases hp
  · rw [hstart, hstream, haddr]
    exact hs.turn hcache.symm hf

/-- A cycle that pushes one instruction. -/
theorem streamInv_one (hs : Steers s) (hclear : s.fetch.clears (steered s i) = false)
    (hpush : s.fetch.pushes (steered s i) = .group) (hcache : s.fetch.addr = s.fetch.cachePc)
    (hpc : s.fetch.behind = s.fetch.pc)
    (hfirst : StreamLaw s.start
      (i.line.fetchedFirst s.fetch.cachePc s.delaySlot i.full2 s.fetch.pc :: s.stream))
    (h2 : i.line.two s.fetch.cachePc s.delaySlot i.full2 = false)
    (haddr : (streamNext s i).fetch.addr = s.fetch.behind)
    (hbehind : (streamNext s i).fetch.behind = (steered s i).predicted) :
    StreamInv (streamNext s i) := by
  obtain ⟨-, hstart, hstream, -⟩ := streamNext_go hclear
  let a := i.line.fetchedFirst s.fetch.cachePc s.delaySlot i.full2 s.fetch.pc
  have hone : fetched s i = [a] := by simp [fetched, hpush, Line.fetched, h2, a]
  rw [hone, List.singleton_append] at hstream
  refine .of_cons hstream (by rwa [hstart]) fun hf => ⟨?_, .inl ?_⟩
  · rw [hstart, hstream, haddr]
    exact hs.turn hcache.symm hf
  · rw [hstream, haddr, hpc, hbehind]
    show i.line.nextPc _ _ _ _ = if i.line.takeBr s.fetch.cachePc then
      i.line.nextPc _ _ _ _ else s.fetch.pc + 4
    split
    next => rfl
    next htake => rw [nextPc_one h2, if_neg htake]

/-- A cycle that pushes a pair. -/
theorem streamInv_two (hok : StreamOk s i) (hclear : s.fetch.clears (steered s i) = false)
    (hpush : s.fetch.pushes (steered s i) = .group)
    (hfirst : StreamLaw s.start
      (i.line.fetchedFirst s.fetch.cachePc s.delaySlot i.full2 s.fetch.pc :: s.stream))
    (h2 : i.line.two s.fetch.cachePc s.delaySlot i.full2 = true)
    (haddr : (streamNext s i).fetch.addr = s.fetch.cachePc + 8)
    (hbehind : (streamNext s i).fetch.behind = (steered s i).predicted) :
    StreamInv (streamNext s i) := by
  obtain ⟨-, hstart, hstream, -⟩ := streamNext_go hclear
  let a := i.line.fetchedFirst s.fetch.cachePc s.delaySlot i.full2 s.fetch.pc
  let b := i.line.fetchedSecond s.fetch.cachePc s.delaySlot i.full2 s.fetch.pc h2
  have hpair : fetched s i = [b, a] := by simp [fetched, hpush, Line.fetched, h2, a, b]
  rw [hpair] at hstream
  replace hstream : (streamNext s i).stream = b :: a :: s.stream := hstream
  obtain ⟨hnot, hnext⟩ := @nextPc_two _ _ s.fetch.pc _ _ h2
  have hna : a.insn.pred = false := hnot
  have hb : b.pc = nextOf s.start (a :: s.stream) :=
    (follows_slot fun h => hok.pair ⟨hpush, h2, h⟩).symm
  have hlast : s.fetch.cachePc + 8 = b.pc + 4 := by
    show s.fetch.cachePc + 8 = s.fetch.cachePc + 4 + 4
    rw [BitVec.add_assoc]
    rfl
  refine .of_cons hstream ?_ fun _ => ⟨?_, .inl ?_⟩
  · rw [hstart]
    exact hfirst.push hb (by intro h; cases h) fun ht =>
      second_onTarget h2 ht fun h => hok.region ⟨hpush, h⟩
  · rw [hstart, hstream, haddr, hlast]
    simp [nextOf, follows, hna]
  · rw [hstream, haddr, hbehind]
    show i.line.nextPc _ _ _ _ = if i.line.gbTake1 s.fetch.cachePc s.delaySlot i.full2 then
      (if i.line.gbTake1 _ _ _ then i.line.nextPc _ _ _ _ else 0) else s.fetch.cachePc + 8 + 4
    split
    next => rfl
    next htake =>
      rw [hnext, if_neg htake, BitVec.add_assoc]
      rfl

/-- A cycle that goes on. -/
theorem streamInv_go (h : StreamInv s) (hok : StreamOk s i)
    (hclear : s.fetch.clears (steered s i) = false) : StreamInv (streamNext s i) := by
  -- a cycle that pushes is where the stream goes on
  have pushed (hpush : s.fetch.pushes (steered s i) ≠ .none) :
      s.fetch.running = true ∧ Steers s :=
    have hr := (Fetch.pushes_free hpush).2.2
    ⟨hr, h.steers hr fun hf => hok.fault ⟨hpush, hf⟩⟩
  cases Fetch.tick_goesOn hclear with
  | wait hpush hkeep => exact streamInv_wait h hclear hpush hkeep
  | fault hpush hcache haddr hbehind =>
    obtain ⟨hr, hs⟩ := pushed (by rw [hpush]; decide)
    exact streamInv_fault h hs hr hclear hpush hcache haddr hbehind
  | group hpush hcache hpc haddr hbehind =>
    obtain ⟨hr, hs⟩ := pushed (by rw [hpush]; decide)
    have hfirst : StreamLaw s.start
        (i.line.fetchedFirst s.fetch.cachePc s.delaySlot i.full2 s.fetch.pc :: s.stream) :=
      h.law.push (hcache.symm.trans hs.addr) (h.empty hr) fun ht =>
        first_onTarget ht fun h => hok.region ⟨hpush, h⟩
    cases h2 : i.line.two s.fetch.cachePc s.delaySlot i.full2 with
    | true => exact streamInv_two hok hclear hpush hfirst h2 (haddr.trans (if_pos h2)) hbehind
    | false =>
      exact streamInv_one hs hclear hpush hcache hpc hfirst h2
        (haddr.trans (if_neg (by simp [steered, h2]))) hbehind

theorem streamInv_next (h : StreamInv s) (hok : StreamOk s i) : StreamInv (streamNext s i) := by
  cases hclear : s.fetch.clears (steered s i) with
  | true => exact streamInv_clear hok hclear
  | false => exact streamInv_go h hok hclear

theorem streamInv_reset (tlb : Fin Iss.numTlbEntries → Mmu.TlbStored)
    (micro : Fin Mmu.numUitlbEntries → Mmu.MicroEntry) : StreamInv (streamReset tlb micro) where
  law := .nil
  empty h := by cases h
  steers h := by cases h

end Step

section Whole

variable (p : Core.Params) (s : HistState) (i : HistIn)

/-- What the fetch unit of the whole machine is given. -/
def streamIn : StreamIn := ⟨fetchIn s i, i.line, fqFull2 s⟩

/-- The fetch unit of the whole machine, with what it has pushed. -/
def streamOf (start : BitVec 64) (stream : List Fetched) : StreamState :=
  ⟨s.fetch, s.delaySlot, start, stream⟩

/-- It takes the steps of the whole machine, and pushes what the core is given. -/
theorem histNext_streams (start : BitVec 64) (stream : List Fetched) :
    ∃ start' stream', streamNext (streamOf s start stream) (streamIn s i) =
        streamOf (histNext p s i) start' stream' ∧
      ((fetched (streamOf s start stream) (streamIn s i)).map (·.insn)).reverse = pushes s i := by
  refine ⟨_, _, rfl, ?_⟩
  have hsteered : steered (streamOf s start stream) (streamIn s i) = fetchIn s i := rfl
  unfold fetched pushes
  rw [hsteered]
  cases hp : s.fetch.pushes (fetchIn s i) with
  | none => simp [streamOf, hp]
  | fault => simp [streamOf, streamIn, hp, Line.fetchedFault]
  | group => simp [streamOf, streamIn, hp, Line.fetched_insn]

end Whole

section Runs

open Core (quiet)

/-- A cycle of the fetch unit with a line that hits, of which no branch is predicted taken. -/
def fetchCycle (w0 w1 w2 w3 : Word) : StreamIn where
  fetch := (cycle w0 w1 w2 w3 quiet).fetch
  line := (cycle w0 w1 w2 w3 quiet).line
  full2 := false

/-- A cycle with a line of `NOP`s. -/
def nops : StreamIn := fetchCycle .nop .nop .nop .nop

/-- A restart, and the cycle in which the first access is made. -/
def restartAt (pc : BitVec 64) : List StreamIn :=
  [{ nops with fetch := { nops.fetch with restartValid := true, restartPc := pc } }, nops]

/-- From reset to the first access. -/
def streamFrom (pc : BitVec 64) : List StreamIn := [nops, nops, nops] ++ restartAt pc

/-- The state after reset, with an empty TLB. -/
def streamStart : StreamState := streamReset (fun _ => {}) fun _ => {}

/-- A jump, its slot and its target. -/
def jumpAndTarget : List StreamIn :=
  streamFrom 0xffffffff80001000 ++ [fetchCycle .j .nop .nop .nop, nops, nops]

example : (Hw.run streamNext streamStart jumpAndTarget).stream.map (·.pc) =
    [0xffffffff80001014, 0xffffffff80001010, 0xffffffff80001004, 0xffffffff80001000] := by
  decide +kernel

/-- The newest instruction is where those before it lead. -/
theorem StreamLaw.newest {start : BitVec 64} {stream : List Fetched} (h : StreamLaw start stream) :
    stream.head?.all (fun a => a.pc == nextOf start stream.tail) = true := by
  cases stream with
  | nil => rfl
  | cons a older => simpa using h.order a older List.suffix_rfl

/-- Every J is predicted to go where the interpreter goes. -/
theorem StreamLaw.jumps {start : BitVec 64} {stream : List Fetched} (h : StreamLaw start stream) :
    stream.all (fun a => !a.insn.pred || Iss.decode a.data != .j ||
      a.predTarget == Iss.regionTarget a.data { Iss.programState 0 [] with pc := a.pc }) = true := by
  rw [List.all_eq_true]
  intro a ha
  cases hpred : a.insn.pred with
  | false => rfl
  | true =>
    by_cases hj : Iss.decode a.data = .j
    · have htarget := h.direct a ha hpred { Iss.programState 0 [] with pc := a.pc } _ rfl
        (by rw [hj]; rfl) (by simp [hj]) (by simp [hj])
      simp [htarget]
    · simp [hj]

/-- The flush of a line between a jump and its slot, and a restart at another jump. -/
def flushInSlot : List StreamIn :=
  streamFrom 0xffffffff80001000 ++
    [fetchCycle .j .nop .nop .nop, { nops with fetch := { nops.fetch with flushLineReq := true } },
      nops] ++
    restartAt 0xffffffff80002000 ++ [fetchCycle .j .nop .nop .nop, nops]

/-- A jump in the last word of a region. -/
def lastWord : List StreamIn := streamFrom 0xffffffff8ffffffc ++ [fetchCycle .nop .nop .nop .j]

/-- It is predicted to stay in the region that its slot is out of. -/
theorem region_lost :
    Hw.RunOk streamNext (fun s i => ¬ StaleSlot s i ∧ ¬ PushPastFault s i ∧ ¬ PairInSlot s i)
        streamStart lastWord ∧
      ¬ StreamLaw (Hw.run streamNext streamStart lastWord).start
        (Hw.run streamNext streamStart lastWord).stream := by
  refine ⟨by decide +kernel, fun h => ?_⟩
  have hjumps := h.jumps
  revert hjumps
  decide +kernel

/-- Three fetches from an address that is not aligned. -/
def misaligned : List StreamIn := streamFrom 0xffffffff80001002 ++ [nops, nops, nops]

/-- The second is pushed twice. -/
theorem fault_repeats :
    Hw.RunOk streamNext (fun s i => ¬ StaleSlot s i ∧ ¬ PairInSlot s i ∧ ¬ LeavesRegion s i)
        streamStart misaligned ∧
      ¬ StreamLaw (Hw.run streamNext streamStart misaligned).start
        (Hw.run streamNext streamStart misaligned).stream := by
  refine ⟨by decide +kernel, fun h => ?_⟩
  have hlast := h.newest
  revert hlast
  decide +kernel

/-- A jump in the slot of a jump, both to the line behind. -/
def jumpInSlot : List StreamIn :=
  streamFrom 0xffffffff80001000 ++
    [fetchCycle .j .nop .nop .nop, fetchCycle .nop .j .nop .nop, nops]

/-- A pair is pushed at the target of the first, which the second goes to again. -/
theorem slot_jump_lost :
    Hw.RunOk streamNext (fun s i => ¬ StaleSlot s i ∧ ¬ PushPastFault s i ∧ ¬ LeavesRegion s i)
        streamStart jumpInSlot ∧
      ¬ StreamLaw (Hw.run streamNext streamStart jumpInSlot).start
        (Hw.run streamNext streamStart jumpInSlot).stream := by
  refine ⟨by decide +kernel, fun h => ?_⟩
  have hlast := h.newest
  revert hlast
  decide +kernel

end Runs

end Frontend

end R9999
