import Mathlib.Data.Nat.ModEq
import R9999.Core.Window

/-!
# The order of the CP0 writes and reads

A `MTC0` writes the CP0 register only after it has retired: its operand is staged in a
buffer with one place for each entry of the reorder buffer, and is written in the cycle
after the retirement.  `TLBP` writes when it retires, and `TLBR` when it is executed, which
it is only once it cannot be squashed.  The reads of the int pipe are ordered behind the
writes by three sequence numbers: how many writers were allocated, how many have retired,
and how many have committed.

The machine runs beside the core.  What the writes do to the CP0 registers is left open:
the history `written` lists the writes that have been performed, and a read is characterized
by the list it has seen.
-/

namespace R9999

namespace Core

/-- A place of the staging buffer (`r_cp0_stage_reg`, `_data` and `_64`). -/
structure Staged where
  reg : BitVec 5
  data : BitVec 64
  wide : Bool
  deriving DecidableEq

/-- The writes of the CP0 writers. -/
inductive Cp0Write where
  | move (w : Staged)
  | probe (hit : Bool) (index : BitVec 6)
  | readTlb
  deriving DecidableEq

/-- The writes of `EntryHi`, the one register that a TLB probe reads. -/
def Cp0Write.entryHi : Cp0Write → Bool
  | .move w => w.reg == 10
  | .probe _ _ => false
  | .readTlb => true

namespace Entry

/-- What the entry stages when it is executed. -/
def staged (e : Entry) : Staged := ⟨BitVec.ofNat 5 e.uop.dst, e.srcA, decide (e.uop.op = .dmtc0)⟩

/-- The write of a CP0 writer. -/
def cp0Write (e : Entry) : Cp0Write :=
  if e.uop.op = .tlbp then .probe e.tlbHit e.tlbIndex
  else if e.uop.op = .tlbr then .readTlb
  else .move e.staged

end Entry

/-- The number of CP0 writers among the entries. -/
def writers (l : List Entry) : Nat := l.countP (·.uop.op.isCp0Wr)

/-! ## The machine -/

/-- What a read has seen: the writes performed before it.  A read that the scheduler issued
has passed the sequence check. -/
structure Seen where
  log : List Cp0Write
  gated : Bool

/-- The core, the registers of the CP0 order, and the histories. -/
structure Cp0State where
  core : State
  /-- `r_rob_head_ptr`. -/
  head : Nat
  allocSeq : Nat
  retireSeq : Nat
  commitSeq : Nat
  stage : Nat → Staged
  /-- `r_retire_cp0_valid`, `_staged` and `_rob_ptr`. -/
  retireValid : Bool
  retireStaged : Bool
  retirePtr : Nat
  /-- What the read in each place has seen, once it is executed. -/
  seen : Nat → Option Seen
  /-- The writers that have retired, and the writes that have been performed. -/
  retired : List Entry
  written : List Cp0Write

/-- The inputs: those of the core, whether the int pipe issues from the head of its queue
(`t_uq_bypass`), and the probe that the memory pipe issues. -/
structure Cp0Input where
  core : Input
  bypass : Bool
  probe : Option Nat

section Machine

variable (p : Params) (s : Cp0State) (i : Cp0Input)

/-- The sequence numbers have two bits more than a place of the reorder buffer. -/
def seqSize : Nat := 4 * p.robEntries

/-- The place of the entry `k` places from the head. -/
def robSlot (k : Nat) : Nat := (s.head + k) % p.robEntries

/-- The sequence check of the scheduler.  The bypass does not make it, but takes no
operation that waits to be the oldest. -/
def mayRead (e : Entry) : Bool :=
  !e.uop.op.isCp0Rd || decide (e.tag.cp0Seq = s.commitSeq) || i.bypass && !e.uop.oldestFirst

/-- The memory pipe answers a probe that it was given. -/
def mayAnswer (k : Nat) : Bool :=
  s.core.rob[k]?.any fun e => !decide (e.uop.op = .tlbp) || (s.seen (robSlot p s k)).isSome

/-- The inputs of the core. -/
def fed : Input :=
  { i.core with
    start := i.core.start.filter fun k => s.core.rob[k]?.any (mayRead s i)
    memDone := i.core.memDone.filter fun x => mayAnswer p s x.1
    tag := { i.core.tag with cp0Seq := s.allocSeq }
    tagTwo :=
      { i.core.tagTwo with
        cp0Seq :=
          (s.allocSeq + (s.core.dq[0]?.any (·.op.isCp0Wr)).toNat) % seqSize p } }

/-- The entry that the int pipe executes, and its distance from the head. -/
def starting (t : State) (j : Input) : Option (Nat × Entry) :=
  match j.start with
  | none => none
  | some k => (t.rob[k]?.filter (mayStart t k)).map (k, ·)

/-- `r_cp0_stage_*`. -/
def stageNext : Nat → Staged :=
  match starting s.core (fed p s i) with
  | none => s.stage
  | some (k, e) =>
    if e.uop.op.moves then
      Function.update s.stage (robSlot p s k) (e.start i.core.startA).staged
    else s.stage

/-- The staged write of this cycle. -/
def commits : List Cp0Write :=
  if s.retireValid && s.retireStaged then [.move (s.stage s.retirePtr)] else []

/-- `t_wr_tlbp`: the result of a probe that retires. -/
def probes (t : State) (c : Comb) : List Cp0Write :=
  if c.retireTwo && t.rob[1]?.any (fun e => decide (e.uop.op = .tlbp)) then
    t.rob[1]?.toList.map Entry.cp0Write
  else if c.retire && t.rob[0]?.any (fun e => decide (e.uop.op = .tlbp)) then
    t.rob[0]?.toList.map Entry.cp0Write
  else []

/-- `r_tlbr`. -/
def tlbReads (t : State) (j : Input) : List Cp0Write :=
  match starting t j with
  | none => []
  | some (_, e) => if e.uop.op = .tlbr then [.readTlb] else []

/-- The writes performed up to the end of the cycle. -/
def writtenNext : List Cp0Write :=
  s.written ++ commits s ++ probes s.core (comb p s.core (fed p s i)) ++
    tlbReads s.core (fed p s i)

/-- The memory pipe reads `EntryHi` for the probe. -/
def probing (k : Nat) : Bool :=
  decide (i.probe = some k) && !s.core.regs.dsDone &&
    s.core.rob[k]?.any fun e => decide (e.uop.op = .tlbp) && !e.complete

/-- The int pipe executes the reader. -/
def readsAt (k : Nat) : Bool :=
  (starting s.core (fed p s i)).any fun x => decide (x.1 = k) && x.2.uop.op.isCp0Rd

/-- A place that is allocated has seen nothing. -/
def fresh (c : Comb) (j : Nat) : Bool :=
  c.alloc && decide (j = robSlot p s s.core.rob.length) ||
    c.allocTwo && decide (j = robSlot p s (s.core.rob.length + 1))

def seenNext (j : Nat) : Option Seen :=
  if fresh p s (comb p s.core (fed p s i)) j then none
  else if (List.range s.core.rob.length).any fun k =>
      decide (j = robSlot p s k) && probing s i k then some ⟨writtenNext p s i, true⟩
  else if (List.range s.core.rob.length).any fun k =>
      decide (j = robSlot p s k) && readsAt p s i k then some ⟨s.written, !i.bypass⟩
  else s.seen j

/-- A CP0 writer retires at the head. -/
def retiresWriter (t : State) (c : Comb) : Bool :=
  c.retire && t.rob[0]?.any (·.uop.op.isCp0Wr)

/-- The CP0 writers that are allocated. -/
def allocsWriters (t : State) (c : Comb) : Nat :=
  (c.alloc && t.dq[0]?.any (·.op.isCp0Wr)).toNat +
    (c.allocTwo && t.dq[1]?.any (·.op.isCp0Wr)).toNat

/-- `n_cp0_retire_seq`. -/
def retireSeqNext (c : Comb) : Nat := (s.retireSeq + (retiresWriter s.core c).toNat) % seqSize p

def cp0Next : Cp0State :=
  let j := fed p s i
  let c := comb p s.core j
  { core := next p s.core j
    head := if c.clrRob then 0 else (s.head + leaving c) % p.robEntries
    allocSeq :=
      if c.clrRob then retireSeqNext p s c
      else (s.allocSeq + allocsWriters s.core c) % seqSize p
    retireSeq := retireSeqNext p s c
    commitSeq := (s.commitSeq + s.retireValid.toNat) % seqSize p
    stage := stageNext p s i
    retireValid := retiresWriter s.core c
    retireStaged := c.retire && s.core.rob[0]?.any (·.uop.op.moves)
    retirePtr := s.head
    seen := seenNext p s i
    retired := s.retired ++ (retiring s.core c).filter (·.uop.op.isCp0Wr)
    written := writtenNext p s i }

end Machine

/-- Reset.  The staging buffer holds anything. -/
def cp0Reset (stage : Nat → Staged) : Cp0State where
  core := reset
  head := 0
  allocSeq := 0
  retireSeq := 0
  commitSeq := 0
  stage := stage
  retireValid := false
  retireStaged := false
  retirePtr := 0
  seen := fun _ => none
  retired := []
  written := []

/-! ## Entries -/

/-- The operations that always take an exception. -/
def Op.excepts : Op → Bool
  | .break | .syscall | .ii | .cpu | .irq | .fetchMisaligned | .fetchAddrError | .fetchTlbMiss
  | .fetchTlbInvalid => true
  | _ => false

/-- The operations that read or write the TLB when they are executed. -/
def Op.usesTlb : Op → Bool
  | .tlbr | .tlbwi | .tlbwr => true
  | _ => false

/-- They write when they are executed, and are no branches. -/
theorem Op.usesTlb_spec {op : Op} (h : op.usesTlb = true) :
    op.writesNow = true ∧ op.jumps = false ∧ op.excepts = false ∧ op.isCp0Rd = true ∧
      op.fold = false ∧ op.moves = false ∧ op ≠ .tlbp := by
  revert h
  cases op <;> simp [usesTlb, writesNow, jumps, excepts, isCp0Rd, fold, moves]

namespace Entry

variable {s : State} {i : Input} {k : Nat} {e : Entry}

/-- An entry has only the faults that its pipe reports, and is complete only after it was
executed. -/
structure Sound (e : Entry) : Prop where
  ran : e.uop.isInt = true → e.complete = true → e.issued = true ∨ e.uop.op.fold = true
  traps : e.mayTrap = false → e.uop.op ≠ .ii → e.isIi = false ∧ e.overflow = false ∧ e.trap = false
  mem : e.uop.isMem = false ∨ e.uop.op = .tlbp →
    e.isBadAddr = false ∧ e.isBusErr = false ∧ e.tlbModified = false ∧
      (e.tlbRefill = true → e.uop.op = .fetchTlbMiss) ∧
      (e.tlbInvalid = true → e.uop.op = .fetchTlbInvalid)
  tlbr : e.uop.op = .tlbr → e.complete = true → e.faulted = true

theorem alloc_sound (u : Uop) (d : Bool) (t : Tag) : (alloc u d t).Sound where
  ran _ hc := .inr hc
  traps _ hne := ⟨decide_eq_false hne, rfl, rfl⟩
  mem _ := ⟨rfl, rfl, rfl, of_decide_eq_true, of_decide_eq_true⟩
  tlbr hop hc := by
    change u.op = .tlbr at hop
    change u.op.fold = true at hc
    simp [hop, Op.fold] at hc

theorem Sound.intDone (h : e.Sound) (r : IntResult) : (e.intDone r).Sound := by
  unfold Entry.intDone
  split
  next hc =>
    simp only [Bool.and_eq_true] at hc
    exact
      { ran := fun _ _ => .inl hc.1.2
        traps := by
          intro ht _
          change e.mayTrap = false at ht
          simp [ht]
        mem := h.mem
        tlbr := by
          intro hop _
          change e.uop.op = .tlbr at hop
          change e.faultsWith r = true
          simp [faultsWith, hop, Op.faults] }
  next => exact h

theorem Sound.fpDone (h : e.Sound) (r : FpResult) : (e.fpDone r).Sound := by
  unfold Entry.fpDone
  split
  next hc =>
    simp only [Bool.and_eq_true] at hc
    exact
      { ran := by
          intro hint
          change e.uop.isInt = true at hint
          simp [(e.uop.ok.pipeInt hint).2] at hc
        traps := h.traps
        mem := h.mem
        tlbr := by
          intro hop
          change e.uop.op = .tlbr at hop
          have := e.uop.ok.fpOp hc.1
          simp [hop] at this }
  next => exact h

theorem Sound.memDone (h : e.Sound) (r : MemResult) : (e.memDone r).Sound := by
  unfold Entry.memDone
  split
  next hc =>
    simp only [Bool.and_eq_true] at hc
    have noint : e.uop.isInt = true → False := by
      intro hint
      simpa [hc.1] using (e.uop.ok.pipeInt hint).1
    exact
      { ran := fun hint => (noint hint).elim
        traps := h.traps
        mem := by
          rintro (hm | hop)
          · change e.uop.isMem = false at hm
            simp [hc.1] at hm
          · change e.uop.op = .tlbp at hop
            simp [memResult, hop]
        tlbr := by
          intro hop
          change e.uop.op = .tlbr at hop
          exact (noint (e.uop.ok.now (by simp [hop, Op.writesNow]))).elim }
  next => exact h

theorem Sound.sdDone (h : e.Sound) : e.sdDone.Sound := { h with }

theorem Sound.start (h : e.Sound) (a : BitVec 64) : (e.start a).Sound :=
  { h with ran := fun _ _ => .inl rfl }

theorem Sound.next (h : e.Sound) : (e.next s i k).Sound :=
  next_induction h (fun _ r h => h.intDone r) (fun _ r h => h.fpDone r) (fun _ r h => h.memDone r)
    (fun _ h => h.sdDone) (fun _ a h => h.start a)

/-- An operation that takes no exception of its own has none. -/
theorem archFault_of_sound (hok : e.Ok) (h : e.Sound) (hop : e.uop.op.excepts = false)
    (ht : e.mayTrap = false) (hm : e.uop.isMem = false ∨ e.uop.op = .tlbp)
    (hfp : e.uop.isFp = false) : e.archFault = false := by
  have hii : e.uop.op ≠ .ii := by
    intro h
    simp [h, Op.excepts] at hop
  obtain ⟨h1, h2, h3⟩ := h.traps ht hii
  obtain ⟨h4, h5, h6, h7, h8⟩ := h.mem hm
  have h9 : e.isFpe = false := by
    cases hx : e.isFpe with
    | false => rfl
    | true => exact ((hok.flags (hok.trap hx)).symm.trans hfp)
  have h10 : e.tlbRefill = false := by
    cases hx : e.tlbRefill with
    | false => rfl
    | true => simp [h7 hx, Op.excepts] at hop
  have h11 : e.tlbInvalid = false := by
    cases hx : e.tlbInvalid with
    | false => rfl
    | true => simp [h8 hx, Op.excepts] at hop
  simp only [archFault, h1, h2, h3, h4, h5, h6, h9, h10, h11, Bool.or_false]
  revert hop
  cases e.uop.op <;> simp [Op.excepts]

/-- A CP0 writer takes no exception. -/
theorem Ok.archFault_writer (hok : e.Ok) (h : e.Sound) (hw : e.uop.op.isCp0Wr = true) :
    e.archFault = false := by
  have hex : e.uop.op.excepts = false := by
    revert hw
    cases e.uop.op <;> simp [Op.isCp0Wr, Op.excepts]
  have ht : e.mayTrap = false := by
    revert hw
    cases hop : e.uop.op <;> simp [Op.isCp0Wr, mayTrap, hop]
  by_cases hp : e.uop.op = .tlbp
  · exact archFault_of_sound hok h hex ht (.inr hp) (e.uop.ok.pipeMem (e.uop.ok.probe hp))
  · have hint : e.uop.isInt = true := by
      by_cases hr : e.uop.op = .tlbr
      · exact e.uop.ok.now (by simp [hr, Op.writesNow])
      · refine (e.uop.ok.plain ?_).1
        revert hw hp hr
        cases e.uop.op <;> simp [Op.isCp0Wr, Op.serializes]
    obtain ⟨hm, hfp⟩ := e.uop.ok.pipeInt hint
    exact archFault_of_sound hok h hex ht (.inl hm) hfp

/-- Nor does what uses the TLB. -/
theorem Ok.archFault_usesTlb (hok : e.Ok) (h : e.Sound) (hu : e.uop.op.usesTlb = true) :
    e.archFault = false := by
  obtain ⟨hnow, -, hex, -⟩ := Op.usesTlb_spec hu
  have ht : e.mayTrap = false := by
    revert hu
    cases hop : e.uop.op <;> simp [Op.usesTlb, mayTrap, hop]
  obtain ⟨hm, hfp⟩ := e.uop.ok.pipeInt (e.uop.ok.now hnow)
  exact archFault_of_sound hok h hex ht (.inl hm) hfp

/-- A branch takes no exception, but for the reserved encodings. -/
theorem Ok.archFault_branch (hok : e.Ok) (h : e.Sound) (hd : e.uop.hasDelaySlot = true)
    (hii : e.uop.op ≠ .ii) : e.archFault = false := by
  obtain ⟨hint, hj⟩ := e.uop.ok.branch hd
  have hex : e.uop.op.excepts = false := by
    revert hj hii
    cases e.uop.op <;> simp [Op.jumps, Op.excepts]
  obtain ⟨hm, hfp⟩ := e.uop.ok.pipeInt hint
  exact archFault_of_sound hok h hex (by simp [mayTrap, hd]) (.inl hm) hfp

end Entry

/-! ## Counting the writers -/

section Counts

variable {p : Params} {s : State} {i : Input}

@[simp] theorem writers_nil : writers [] = 0 := rfl

@[simp] theorem writers_append (l m : List Entry) : writers (l ++ m) = writers l + writers m :=
  List.countP_append

theorem writers_le (l : List Entry) : writers l ≤ l.length := List.countP_le_length

theorem writers_pos {l : List Entry} {k : Nat} {e : Entry} (h : l[k]? = some e)
    (hw : e.uop.op.isCp0Wr = true) {n : Nat} (hn : k < n) : 0 < writers (l.take n) := by
  rw [writers, List.countP_pos_iff]
  exact ⟨e, List.mem_of_getElem? ((List.getElem?_take_of_lt hn).trans h), hw⟩

theorem writers_zero {l : List Entry} {n k : Nat} {e : Entry} (h : writers (l.take n) = 0)
    (hk : k < n) (he : l[k]? = some e) : e.uop.op.isCp0Wr = false := by
  cases hw : e.uop.op.isCp0Wr with
  | false => rfl
  | true => exact absurd (writers_pos he hw hk) (by omega)

theorem progress_uop : (progress s i).map (·.uop) = s.rob.map (·.uop) := by
  apply List.ext_getElem?
  intro k
  simp only [List.getElem?_map, progress_getElem?, Option.map_map]
  congr 1
  funext e
  exact Entry.next_uop

/-- Progress does not change what an entry is. -/
theorem writers_kept (n k : Nat) :
    writers (((progress s i).drop n).take k) = writers ((s.rob.drop n).take k) := by
  have huop (l : List Entry) : writers l = (l.map (·.uop)).countP (·.op.isCp0Wr) := by
    rw [List.countP_map]
    rfl
  rw [huop, huop, List.map_take, List.map_drop, progress_uop, List.map_take, List.map_drop]

theorem writers_new (h : Alloc p s i (comb p s i)) :
    writers (newEntries s i (comb p s i)) = allocsWriters s (comb p s i) := by
  cases h with
  | none ha h2 hnew => simp [hnew, allocsWriters, ha, h2]
  | one u us hdq ha h2 hnew =>
    simp only [hnew, allocsWriters, ha, h2, hdq, writers, List.countP_singleton, Bool.true_and,
      Bool.false_and, List.getElem?_cons_zero, Option.any_some, Entry.alloc]
    cases u.op.isCp0Wr <;> rfl
  | two u v us hdq ha h2 hnew =>
    simp only [hnew, allocsWriters, ha, h2, hdq, writers, List.countP_cons, List.countP_nil,
      Bool.true_and, List.getElem?_cons_zero, List.getElem?_cons_succ, Option.any_some,
      Entry.alloc]
    cases u.op.isCp0Wr <;> cases v.op.isCp0Wr <;> rfl

theorem starting_eq_some {k : Nat} {e : Entry} :
    starting s i = some (k, e) ↔
      i.start = some k ∧ s.rob[k]? = some e ∧ mayStart s k e = true := by
  unfold starting
  split
  next h => simp [h]
  next j h =>
    simp only [h, Option.map_eq_some_iff, Option.filter_eq_some_iff, Option.some.injEq,
      Prod.mk.injEq]
    constructor
    · rintro ⟨e', ⟨he, hm⟩, rfl, rfl⟩
      exact ⟨rfl, he, hm⟩
    · rintro ⟨rfl, he, hm⟩
      exact ⟨e, ⟨he, hm⟩, rfl, rfl⟩

/-- Only the entry at the head can be a writer that retires. -/
theorem retired_writers (hok : RobOk s) (hf : Fits s) :
    (retiring s (comb p s i)).filter (·.uop.op.isCp0Wr) =
      if retiresWriter s (comb p s i) then s.rob[0]?.toList else [] := by
  have hexit := exit_cases (p := p) (i := i) hok hf
  cases hexit with
  | none hl hr => simp [retiring, retiresWriter, hr]
  | fault hs hl hr => simp [retiring, retiresWriter, hr]
  | one e es hrob _ _ _ hl hr h2 =>
    cases hw : e.uop.op.isCp0Wr <;> simp [retiring, retiresWriter, hr, h2, hrob, hw]
  | two e f es hrob _ _ _ _ hplain _ hl hr h2 =>
    cases hw : e.uop.op.isCp0Wr <;> simp [retiring, retiresWriter, hr, h2, hrob, hw, hplain.1]

/-- The entry whose exception is being taken has one. -/
def Trapping (s : State) : Prop :=
  s.regs.state = .archFault → ∃ e es, s.rob = e :: es ∧ e.archFault = true

theorem trapping_next (hok : RobOk s) (hf : Fits s) : Trapping (next p s i) := by
  intro hst
  have hn := state_next (p := p) (i := i) hok hf
  rw [hst] at hn
  have hold {e : Entry} {es : List Entry} (hrob : s.rob = e :: es) (hdone : e.done = true)
      (harch : e.archFault = true) (hr : nextRob s i (comb p s i) = progress s i) :
      ∃ e es, (next p s i).rob = e :: es ∧ e.archFault = true := by
    refine ⟨e, (progress s i).tail, ?_, harch⟩
    change nextRob s i (comb p s i) = _
    rw [hr]
    simp [progress, hrob, Entry.next_of_done hdone]
  have hfrom : s.regs.state = .active ∨ s.regs.state = .drain := by
    revert hn
    cases s.regs.state <;> simp [FsmState.succs]
  obtain hs | hs := hfrom
  · obtain ⟨c, hturn, hcomb⟩ := comb_active (p := p) (i := i) hs
    have hal : (allocate p s i (tick s i)).n.state ≠ .archFault := by
      obtain ⟨-, h⟩ | ⟨-, -, h⟩ | ⟨-, h⟩ :=
        allocate_cases (p := p) (s := s) (i := i) (tick s i) <;> simp [h, hs]
    cases hturn with
    | detour => simp [next, hcomb, finish] at hst
    | fault e es hrob hdone hfault harch =>
      refine hold hrob hdone harch ?_
      apply nextRob_hold <;> simp [hcomb, finish, faultedHead, harch]
    | restart e es hrob hdone hfault harch =>
      simp [next, hcomb, finish, faultedHead, harch] at hst
    | retire => exact (hal (by simpa [next, hcomb, finish] using hst)).elim
    | wait => exact (hal (by simpa [next, hcomb, finish] using hst)).elim
  · obtain ⟨c, hturn, hcomb⟩ := comb_drain (p := p) (i := i) hs
    cases hturn with
    | fault e es hrob hds hdone harch =>
      refine hold hrob hdone harch ?_
      apply nextRob_hold <;> simp [hcomb, finish]
    | rat => simp [next, hcomb, finish] at hst
    | _ => simp [next, hcomb, finish, hs] at hst

/-- Every entry is sound. -/
def RobSound (s : State) : Prop := ∀ e ∈ s.rob, e.Sound

theorem robSound_next (h : RobSound s) : RobSound (next p s i) := by
  intro e' he
  simp only [next, nextRob] at he
  split at he
  · cases he
  rw [List.mem_append] at he
  obtain he | he := he
  · obtain ⟨k, hk⟩ := List.mem_iff_getElem?.mp he
    obtain ⟨e, hg, rfl⟩ := kept_getElem? hk
    exact (h e (List.mem_of_getElem? hg)).next
  · obtain ⟨u, d, t, rfl, -, -⟩ := mem_newEntries he
    exact Entry.alloc_sound u d t

/-- As many writers retire as leave. -/
theorem retired_length (hok : RobOk s) (hf : Fits s) (hsound : RobSound s) (htrap : Trapping s) :
    ((retiring s (comb p s i)).filter (·.uop.op.isCp0Wr)).length =
      writers (s.rob.take (leaving (comb p s i))) := by
  by_cases hs : s.regs.state = .archFault
  · obtain ⟨e, es, hrob, harch⟩ := htrap hs
    have hw : e.uop.op.isCp0Wr = false := by
      cases hw : e.uop.op.isCp0Wr with
      | false => rfl
      | true =>
        have hmem : e ∈ s.rob := by simp [hrob]
        rw [(hok e hmem).archFault_writer (hsound e hmem) hw] at harch
        cases harch
    have hexit := exit_cases (p := p) (i := i) hok hf
    cases hexit with
    | none hl hr => simp [retiring, hr, hl]
    | fault _ hl hr => simp [retiring, hr, hl, hrob, writers, hw]
    | one e es _ _ _ h => simp [hs] at h
    | two e f es _ _ _ _ _ _ h => simp [hs] at h
  · rw [retiring_eq hok hf hs, writers, List.countP_eq_length_filter]

end Counts

/-! ## `TLBR` -/

/-- The places in which a `TLBR` that is executed retires. -/
inductive TlbSeat (s : State) (k : Nat) : Prop where
  | head (hk : k = 0) (hs : s.regs.state = .active)
  | drain (hk : k = 0) (hs : s.regs.state = .drain) (hds : s.regs.dsDone = false)
      (hbr : s.regs.hasNullifyingDelaySlot = true → s.regs.takeBr = true)
  | slot (b : Entry) (hk : k = 1) (hb : s.rob[0]? = some b) (hmis : b.Mispredicted)
      (hnull : b.uop.hasNullifyingDelaySlot = false) (hii : b.uop.op ≠ .ii)
      (hs : s.regs.state = .active)

/-- A `TLBR` is executed behind a head that takes an exception or is itself thrown away. -/
def strayTlbr (s : State) (i : Input) : Bool :=
  (starting s i).any fun x =>
    decide (x.2.uop.op = .tlbr) && !decide (x.1 = 0) &&
      !(decide (s.regs.state = .active) && s.rob[0]?.any fun b => !decide (b.uop.op = .ii))

section Tlb

variable {p : Params} {s : State} {i : Input} {k : Nat} {e : Entry}

/-- What uses the TLB waits to be the oldest. -/
theorem usesTlb_oldest (hu : e.uop.op.usesTlb = true) : e.uop.oldestFirst = true := by
  obtain ho | hc := e.uop.ok.oldest (Op.usesTlb_spec hu).1
  · exact ho
  · simp [hc, Op.usesTlb] at hu

/-- An operation of a kind that is never executed behind a head that is thrown away is at the
head, or in the slot of a branch. -/
theorem stray_spec {X : Entry → Bool}
    (hno : (starting s i).any (fun x => X x.2 && !decide (x.1 = 0) &&
      !(decide (s.regs.state = .active) &&
        s.rob[0]?.any fun b => !decide (b.uop.op = .ii))) = false)
    (hst : starting s i = some (k, e)) (hX : X e = true) :
    k = 0 ∨ s.regs.state = .active ∧ ∀ b, s.rob[0]? = some b → b.uop.op ≠ .ii := by
  simp only [hst, Option.any_some, hX, Bool.true_and, Bool.and_eq_false_iff,
    Bool.not_eq_false', Bool.and_eq_true, decide_eq_true_eq] at hno
  refine hno.imp_right ?_
  rintro ⟨hs, hb⟩
  refine ⟨hs, ?_⟩
  intro b hrob hii
  simp [hrob, hii] at hb

theorem strayTlbr_spec (hno : strayTlbr s i = false) (hst : starting s i = some (k, e))
    (hop : e.uop.op = .tlbr) :
    k = 0 ∨ s.regs.state = .active ∧ ∀ b, s.rob[0]? = some b → b.uop.op ≠ .ii :=
  stray_spec (X := fun e => decide (e.uop.op = .tlbr)) hno hst (decide_eq_true hop)

theorem seat_of_start (hst : starting s i = some (k, e)) (hu : e.uop.op.usesTlb = true)
    (hno : k = 0 ∨ s.regs.state = .active ∧ ∀ b, s.rob[0]? = some b → b.uop.op ≠ .ii) :
    TlbSeat s k := by
  obtain ⟨-, he, hm⟩ := starting_eq_some.mp hst
  simp only [mayStart, usesTlb_oldest hu, Bool.and_eq_true, Bool.or_eq_true, Bool.not_true,
    Bool.false_eq_true, false_or, decide_eq_true_eq] at hm
  obtain ⟨-, ⟨hk, hv⟩ | ⟨hk, hv⟩⟩ := hm
  · simp only [headValid, Bool.or_eq_true, Bool.and_eq_true, Bool.not_eq_true',
      Bool.and_eq_false_iff, Bool.not_eq_false', decide_eq_true_eq] at hv
    obtain hs | ⟨⟨hs, hds⟩, hn⟩ := hv
    · exact .head hk hs
    · refine .drain hk hs hds ?_
      intro h
      simpa [h] using hn
  · obtain h | ⟨hs, hii⟩ := hno
    · omega
    · cases hrob : s.rob with
      | nil => simp [dsCommittable, hrob] at hv
      | cons b bs =>
        simp only [dsCommittable, hrob, List.getElem?_cons_zero, Option.any_some,
          Bool.and_eq_true, Bool.not_eq_true'] at hv
        obtain ⟨⟨⟨hdone, hfault⟩, hd⟩, hnull⟩ := hv
        have hhead : s.rob[0]? = some b := by simp [hrob]
        exact .slot b hk hhead ⟨hdone, hfault, hd⟩ hnull (hii b hhead) hs

/-- An operation that uses the TLB and is executed stays where it is until it retires. -/
theorem seat_kept (hok : RobOk s) (hsound : RobSound s) (he : s.rob[k]? = some e)
    (hu : e.uop.op.usesTlb = true) (h : TlbSeat s k) {k' : Nat}
    (hk' : leaving (comb p s i) + k' = k) : TlbSeat (next p s i) k' := by
  have hmem := List.mem_of_getElem? he
  have harch : e.archFault = false := (hok e hmem).archFault_usesTlb (hsound e hmem) hu
  cases h with
  | head hk hs =>
    obtain ⟨es, hrob⟩ := rob_head (hk ▸ he)
    obtain ⟨c, hturn, hcomb⟩ := comb_active (p := p) (i := i) hs
    cases hturn with
    | detour b u us hrob' hdone hslot =>
      obtain ⟨rfl, -⟩ := List.cons.inj (hrob.symm.trans hrob')
      have := (e.uop.ok.branch hslot).2
      simp [(Op.usesTlb_spec hu).2.1] at this
    | fault b bs hrob' hd hfl har =>
      obtain ⟨rfl, -⟩ := List.cons.inj (hrob.symm.trans hrob')
      simp [harch] at har
    | restart => simp [hcomb, finish, leaving] at hk'; omega
    | retire =>
      simp only [hcomb, finish, leaving, accumulate_retire, Bool.true_or, if_true] at hk'
      split at hk' <;> omega
    | wait =>
      have hne : s.rob ≠ [] := by simp [hrob]
      obtain ⟨hn, -⟩ := allocate_state (p := p) (i := i) hne (tick s i)
      exact .head (by omega) (by simp [next, hcomb, finish, hn, hs])
  | drain hk hs hds hbr =>
    obtain ⟨es, hrob⟩ := rob_head (hk ▸ he)
    obtain ⟨c, hturn, hcomb⟩ := comb_drain (p := p) (i := i) hs
    cases hturn with
    | wait =>
      exact .drain (by omega) (by simp [next, hcomb, finish, hs])
        (by simp [next, hcomb, finish, hds]) (by simpa [next, hcomb, finish, tick] using hbr)
    | rat h => simp [hds] at h
    | nullify f fs hrob' _ hnull hno => simp [hbr hnull] at hno
    | fault f fs hrob' _ hd har =>
      obtain ⟨rfl, -⟩ := List.cons.inj (hrob.symm.trans hrob')
      simp [harch] at har
    | retire => simp [hcomb, finish, leaving] at hk'; omega
  | slot b hk hb hmis hnull hii hs =>
    have hbmem := List.mem_of_getElem? hb
    have hbarch := (hok b hbmem).archFault_branch (hsound b hbmem) hmis.slot hii
    obtain ⟨bs, hrob⟩ := rob_head hb
    obtain ⟨c, hturn, hcomb⟩ := comb_active (p := p) (i := i) hs
    cases hturn with
    | detour b' u us hrob' => simp [hk, hrob'] at he
    | fault b' bs' hrob' hd hfl har =>
      obtain ⟨rfl, -⟩ := List.cons.inj (hrob.symm.trans hrob')
      simp [hbarch] at har
    | restart b' bs' hrob' hd hfl har =>
      obtain ⟨rfl, -⟩ := List.cons.inj (hrob.symm.trans hrob')
      have hl : leaving (comb p s i) = 1 := by simp [hcomb, finish, leaving]
      refine .drain (by omega) ?_ ?_ ?_
      · simp [next, hcomb, finish, faultedHead, har]
      · simp [next, hcomb, finish, faultedHead, har, hmis.slot]
      · simp [next, hcomb, finish, faultedHead, har, hnull]
    | retire b' bs' hrob' hd hfl =>
      obtain ⟨rfl, -⟩ := List.cons.inj (hrob.symm.trans hrob')
      simp [hmis.faulted] at hfl
    | wait =>
      have hne : s.rob ≠ [] := by simp [hrob]
      obtain ⟨hn, hr, hbump, -, -, hclr⟩ := allocate_state (p := p) (i := i) hne (tick s i)
      have hl : leaving (comb p s i) = 0 := by simp [hcomb, finish, leaving, hr, hbump]
      refine .slot b (by omega) ?_ hmis hnull hii (by simp [next, hcomb, finish, hn, hs])
      exact head_kept hl (by simp [hcomb, finish, hclr]) hb hmis.done

/-- It is not thrown away. -/
theorem seat_clear (hok : RobOk s) (hf : Fits s) (h : TlbSeat s k) :
    (comb p s i).clrRob = false := by
  cases hclr : (comb p s i).clrRob with
  | false => rfl
  | true =>
    have hs := clrRob_cases hok hf hclr
    cases h <;> simp_all

end Tlb

/-! ## The invariant -/

/-- The writers that were allocated before the entry `k` places from the head. -/
def before (s : Cp0State) (k : Nat) : Nat := s.retired.length + writers (s.core.rob.take k)

/-- A `TLBR` has been executed and has not retired. -/
def readingTlb (s : State) : Bool :=
  s.rob.any fun e => decide (e.uop.op = .tlbr) && e.issued

/-- The writes that the performed ones come to once the pending one is committed. -/
def Accounted (s : Cp0State) : Prop :=
  s.written ++ commits s =
    s.retired.map Entry.cp0Write ++ if readingTlb s.core then [.readTlb] else []

structure Cp0Inv (p : Params) (s : Cp0State) : Prop where
  sane : Sane s.core
  sound : RobSound s.core
  trapping : Trapping s.core
  short : s.core.rob.length ≤ p.robEntries
  headLt : s.head < p.robEntries
  allocSeq : s.allocSeq = before s s.core.rob.length % seqSize p
  retireSeq : s.retireSeq = s.retired.length % seqSize p
  commitLt : s.commitSeq < seqSize p
  commitSeq : (s.commitSeq + s.retireValid.toNat) % seqSize p = s.retired.length % seqSize p
  tags : ∀ k e, s.core.rob[k]? = some e → e.tag.cp0Seq = before s k % seqSize p
  staged : ∀ k e, s.core.rob[k]? = some e → e.uop.op.moves = true → e.issued = true →
    s.stage (robSlot p s k) = e.staged
  stagedValid : s.retireStaged = true → s.retireValid = true
  /-- The writer that retired last still has its data in the buffer. -/
  pending : s.retireValid = true → ∃ l e, s.retired = l ++ [e] ∧
    s.retireStaged = e.uop.op.moves ∧ (e.uop.op.moves = true → s.stage s.retirePtr = e.staged)
  /-- A read that was checked has no older writer in front of it. -/
  saw : ∀ k e, s.core.rob[k]? = some e → e.uop.isInt = true → e.uop.op.isCp0Rd = true →
    e.issued = true → ∃ x, s.seen (robSlot p s k) = some x ∧
      (x.gated = true → writers (s.core.rob.take k) = 0 ∧
        x.log = s.retired.map Entry.cp0Write)
  tlb : ∀ k e, s.core.rob[k]? = some e → e.uop.op = .tlbr → e.issued = true →
    s.retireValid = false ∧ writers (s.core.rob.take k) = 0 ∧ TlbSeat s.core k
  law : Accounted s

section Slots

variable {p : Params} {s : Cp0State} {i : Cp0Input}

theorem seqSize_pos (p : Params) : 0 < seqSize p := by
  have := p.robEntries_pos
  unfold seqSize
  omega

theorem robSlot_inj {k k' : Nat} (hk : k < p.robEntries) (hk' : k' < p.robEntries)
    (h : robSlot p s k = robSlot p s k') : k = k' := by
  have hm : k ≡ k' [MOD p.robEntries] := Nat.ModEq.add_left_cancel' s.head h
  rwa [Nat.ModEq, Nat.mod_eq_of_lt hk, Nat.mod_eq_of_lt hk'] at hm

theorem robSlot_next (hclr : (comb p s.core (fed p s i)).clrRob = false) (k : Nat) :
    robSlot p (cp0Next p s i) k =
      robSlot p s (leaving (comb p s.core (fed p s i)) + k) := by
  simp only [robSlot, cp0Next, hclr, Bool.false_eq_true, if_false]
  rw [Nat.mod_add_mod, Nat.add_assoc]

theorem stageNext_start {k : Nat} {e : Entry} (h : starting s.core (fed p s i) = some (k, e))
    (hm : e.uop.op.moves = true) :
    stageNext p s i (robSlot p s k) = (e.start i.core.startA).staged := by
  simp [stageNext, h, hm]

/-- The staging buffer changes only where a move is executed. -/
theorem stageNext_keep (hlen : s.core.rob.length ≤ p.robEntries) {k : Nat} {e : Entry}
    (he : s.core.rob[k]? = some e) (h : starting s.core (fed p s i) ≠ some (k, e)) :
    stageNext p s i (robSlot p s k) = s.stage (robSlot p s k) := by
  have hk : k < p.robEntries := Nat.lt_of_lt_of_le (List.getElem?_eq_some_iff.mp he).1 hlen
  cases h₀ : starting s.core (fed p s i) with
  | none => simp [stageNext, h₀]
  | some x =>
    obtain ⟨k₀, e₀⟩ := x
    obtain ⟨-, he₀, -⟩ := starting_eq_some.mp h₀
    have hk₀ : k₀ < p.robEntries :=
      Nat.lt_of_lt_of_le (List.getElem?_eq_some_iff.mp he₀).1 hlen
    have hne : robSlot p s k ≠ robSlot p s k₀ := by
      intro hs
      obtain rfl := robSlot_inj hk hk₀ hs
      obtain rfl := Option.some.inj (he₀.symm.trans he)
      exact h h₀
    simp only [stageNext, h₀]
    split
    · exact Function.update_of_ne hne _ _
    · rfl

theorem any_slot (hlen : s.core.rob.length ≤ p.robEntries) {k : Nat} (hk : k < s.core.rob.length)
    (f : Nat → Bool) :
    ((List.range s.core.rob.length).any fun j =>
      decide (robSlot p s k = robSlot p s j) && f j) = f k := by
  rw [Bool.eq_iff_iff]
  simp only [List.any_eq_true, List.mem_range, Bool.and_eq_true, decide_eq_true_eq]
  constructor
  · rintro ⟨j, hj, hs, hf⟩
    obtain rfl := robSlot_inj (by omega) (by omega) hs
    exact hf
  · intro hf
    exact ⟨k, hk, rfl, hf⟩

/-- The place of an entry is not allocated again. -/
theorem fresh_old (hsane : Sane s.core) (hlen : s.core.rob.length ≤ p.robEntries) {k : Nat}
    (hk : k < s.core.rob.length) :
    fresh p s (comb p s.core (fed p s i)) (robSlot p s k) = false := by
  have hne {m : Nat} (hm : s.core.rob.length ≤ m) (hmn : m < p.robEntries) :
      robSlot p s k ≠ robSlot p s m := by
    intro hs
    have := robSlot_inj (by omega) hmn hs
    omega
  have hturn := alloc_turn (p := p) (i := fed p s i) hsane.rob hsane.fits
  cases hturn with
  | none ha h2 => simp [fresh, ha, h2]
  | one u us hdq ha h2 hnew hroom => simp [fresh, ha, h2, hne (Nat.le_refl _) hroom]
  | two u v us hdq ha h2 hnew hroom =>
    simp [fresh, ha, h2, hne (Nat.le_refl _) (by omega), hne (Nat.le_add_right _ 1) hroom]

/-- That of a new one is. -/
theorem fresh_new (hsane : Sane s.core) {k : Nat} {e : Entry}
    (he : (newEntries s.core (fed p s i) (comb p s.core (fed p s i)))[k]? = some e) :
    fresh p s (comb p s.core (fed p s i)) (robSlot p s (s.core.rob.length + k)) = true := by
  have hturn := alloc_turn (p := p) (i := fed p s i) hsane.rob hsane.fits
  cases hturn with
  | none ha h2 hnew => simp [hnew] at he
  | one u us hdq ha h2 hnew =>
    have hk := (List.getElem?_eq_some_iff.mp he).1
    simp only [hnew, List.length_singleton, Nat.lt_one_iff] at hk
    simp [fresh, ha, hk]
  | two u v us hdq ha h2 hnew =>
    have hk := (List.getElem?_eq_some_iff.mp he).1
    simp only [hnew, List.length_cons, List.length_nil] at hk
    obtain rfl | rfl : k = 0 ∨ k = 1 := by omega
    · simp [fresh, ha]
    · simp [fresh, h2]

/-- An entry that stays has seen what it had seen, unless it reads in this cycle. -/
theorem seenNext_old (hsane : Sane s.core) (hlen : s.core.rob.length ≤ p.robEntries) {k : Nat}
    (hk : k < s.core.rob.length) :
    seenNext p s i (robSlot p s k) =
      if probing s i k then some ⟨writtenNext p s i, true⟩
      else if readsAt p s i k then some ⟨s.written, !i.bypass⟩
      else s.seen (robSlot p s k) := by
  rw [seenNext, fresh_old hsane hlen hk, any_slot hlen hk, any_slot hlen hk]
  rfl

/-- A new entry has seen nothing. -/
theorem seenNext_new (hsane : Sane s.core) {k : Nat} {e : Entry}
    (he : (newEntries s.core (fed p s i) (comb p s.core (fed p s i)))[k]? = some e) :
    seenNext p s i (robSlot p s (s.core.rob.length + k)) = none := by
  simp [seenNext, fresh_new hsane he]

end Slots

section Step

variable {p : Params} {s : Cp0State} {i : Cp0Input}

theorem retired_next (h : Cp0Inv p s) :
    (cp0Next p s i).retired = s.retired ++
      if retiresWriter s.core (comb p s.core (fed p s i)) then s.core.rob[0]?.toList else [] := by
  change s.retired ++ _ = _
  rw [retired_writers h.sane.rob h.sane.fits]

/-- The writers in front of an entry are counted whether or not they have retired. -/
theorem before_next (h : Cp0Inv p s) (hclr : (comb p s.core (fed p s i)).clrRob = false) {k : Nat}
    (hk : leaving (comb p s.core (fed p s i)) + k ≤ s.core.rob.length) :
    before (cp0Next p s i) k = before s (leaving (comb p s.core (fed p s i)) + k) := by
  have hlen := retired_length (p := p) (i := fed p s i) h.sane.rob h.sane.fits h.sound h.trapping
  simp only [before]
  change (s.retired ++ _).length + writers ((next p s.core (fed p s i)).rob.take k) = _
  rw [rob_next hclr, List.take_append_of_le_length (by simp; omega), writers_kept,
    List.length_append, hlen, List.take_add, writers_append, Nat.add_assoc]

/-- The sequence check of a read: no older writer is in flight or being committed. -/
theorem gate_iff (h : Cp0Inv p s) {k : Nat} {e : Entry} (he : s.core.rob[k]? = some e) :
    e.tag.cp0Seq = s.commitSeq ↔
      writers (s.core.rob.take k) = 0 ∧ s.retireValid = false := by
  have htag := h.tags k e he
  have hcommit := h.commitSeq
  have hlt := h.commitLt
  have hfew : writers (s.core.rob.take k) + s.retireValid.toNat < seqSize p := by
    have h1 := writers_le (s.core.rob.take k)
    have h2 := (List.getElem?_eq_some_iff.mp he).1
    have h3 := h.short
    have h4 := Bool.toNat_le s.retireValid
    have h5 := p.robEntries_pos
    simp only [List.length_take] at h1
    unfold seqSize
    omega
  constructor
  · intro heq
    have hm : s.commitSeq + (s.retireValid.toNat + writers (s.core.rob.take k)) ≡
        s.commitSeq + 0 [MOD seqSize p] := by
      calc s.commitSeq + (s.retireValid.toNat + writers (s.core.rob.take k))
          = s.commitSeq + s.retireValid.toNat + writers (s.core.rob.take k) := by omega
        _ ≡ s.retired.length + writers (s.core.rob.take k) [MOD seqSize p] :=
            Nat.ModEq.add_right _ hcommit
        _ ≡ s.commitSeq + 0 [MOD seqSize p] := by
            rw [Nat.ModEq, Nat.add_zero, Nat.mod_eq_of_lt hlt, ← heq, htag]
            rfl
    have hz := Nat.ModEq.add_left_cancel' _ hm
    rw [Nat.ModEq, Nat.mod_eq_of_lt (by omega), Nat.zero_mod] at hz
    exact ⟨by omega, by cases hv : s.retireValid <;> simp_all⟩
  · rintro ⟨hw, hv⟩
    rw [htag, before, hw, Nat.add_zero, ← hcommit, hv]
    exact Nat.mod_eq_of_lt hlt

/-- A writer that retires is the complete head. -/
theorem retiresWriter_spec (h : Cp0Inv p s)
    (hr : retiresWriter s.core (comb p s.core (fed p s i)) = true) :
    ∃ e es, s.core.rob = e :: es ∧ e.done = true ∧ e.uop.op.isCp0Wr = true ∧
      (comb p s.core (fed p s i)).retire = true ∧
      1 ≤ leaving (comb p s.core (fed p s i)) := by
  simp only [retiresWriter, Bool.and_eq_true] at hr
  obtain ⟨hret, hw⟩ := hr
  have hexit := exit_cases (p := p) (i := fed p s i) h.sane.rob h.sane.fits
  cases hexit with
  | none hl hr => simp [hret] at hr
  | fault hs hl hr => simp [hret] at hr
  | one e es hrob hdone _ _ hl =>
    rw [hrob] at hw
    exact ⟨e, es, hrob, hdone, by simpa using hw, hret, by omega⟩
  | two e f es hrob hdone _ _ _ _ _ hl =>
    rw [hrob] at hw
    exact ⟨e, f :: es, hrob, hdone, by simpa using hw, hret, by omega⟩

theorem retired_length_next (h : Cp0Inv p s) :
    (cp0Next p s i).retired.length = s.retired.length +
      (retiresWriter s.core (comb p s.core (fed p s i))).toNat := by
  rw [retired_next h, List.length_append]
  cases hr : retiresWriter s.core (comb p s.core (fed p s i)) with
  | false => rfl
  | true =>
    obtain ⟨e, es, hrob, -⟩ := retiresWriter_spec h hr
    simp [hrob]

/-- While nothing in front of an entry is a writer, no writer retires. -/
theorem quiet_prefix (h : Cp0Inv p s) (hclr : (comb p s.core (fed p s i)).clrRob = false) {k : Nat}
    (hk : leaving (comb p s.core (fed p s i)) + k ≤ s.core.rob.length)
    (hw : writers (s.core.rob.take (leaving (comb p s.core (fed p s i)) + k)) = 0) :
    writers ((cp0Next p s i).core.rob.take k) = 0 ∧
      (cp0Next p s i).retired = s.retired ∧ (cp0Next p s i).retireValid = false := by
  have hb := before_next h hclr hk
  simp only [before, hw] at hb
  have hr : retiresWriter s.core (comb p s.core (fed p s i)) = false := by
    cases hr : retiresWriter s.core (comb p s.core (fed p s i)) with
    | false => rfl
    | true =>
      obtain ⟨e, es, hrob, -, hwr, -, hl⟩ := retiresWriter_spec h hr
      have hz := writers_zero hw (k := 0) (e := e) (by omega) (by simp [hrob])
      simp [hwr] at hz
  have hret : (cp0Next p s i).retired = s.retired := by
    rw [retired_next h, hr]
    simp
  rw [hret] at hb
  exact ⟨by omega, hret, hr⟩

/-- A read that is checked has no older writer, and none is being committed. -/
theorem started_gate (h : Cp0Inv p s) {k : Nat} {e : Entry}
    (hst : starting s.core (fed p s i) = some (k, e)) (hrd : e.uop.op.isCp0Rd = true)
    (hg : i.bypass = false ∨ e.uop.oldestFirst = true) :
    writers (s.core.rob.take k) = 0 ∧ s.retireValid = false := by
  obtain ⟨hs, he, -⟩ := starting_eq_some.mp hst
  have hm : mayRead s i e = true := by
    simp only [fed, Option.filter_eq_some_iff] at hs
    simpa [he] using hs.2
  refine (gate_iff h he).mp ?_
  simp only [mayRead, hrd, Bool.not_true, Bool.false_or, Bool.or_eq_true, Bool.and_eq_true,
    Bool.not_eq_true', decide_eq_true_eq] at hm
  obtain hm | ⟨hb, ho⟩ := hm
  · exact hm
  · obtain hg | hg := hg
    · simp [hg] at hb
    · simp [hg] at ho

theorem readingTlb_iff {t : State} :
    readingTlb t = true ↔
      ∃ (k : Nat) (e : Entry), t.rob[k]? = some e ∧ e.uop.op = .tlbr ∧ e.issued = true := by
  simp only [readingTlb, List.any_eq_true, Bool.and_eq_true, decide_eq_true_eq]
  constructor
  · rintro ⟨e, he, hop, hi⟩
    obtain ⟨k, hk⟩ := List.mem_iff_getElem?.mp he
    exact ⟨k, e, hk, hop, hi⟩
  · rintro ⟨k, e, hk, hop, hi⟩
    exact ⟨e, List.mem_of_getElem? hk, hop, hi⟩

/-- No `TLBR` is under way when a read passes its check. -/
theorem not_reading (h : Cp0Inv p s) {k : Nat} {e : Entry}
    (hst : starting s.core (fed p s i) = some (k, e))
    (hw : writers (s.core.rob.take k) = 0) : readingTlb s.core = false := by
  cases hr : readingTlb s.core with
  | false => rfl
  | true =>
    obtain ⟨k', t, ht, hop, hiss⟩ := readingTlb_iff.mp hr
    obtain ⟨-, he, hm⟩ := starting_eq_some.mp hst
    simp only [mayStart, Bool.and_eq_true, Bool.not_eq_true'] at hm
    obtain ⟨⟨⟨⟨-, hni⟩, hnc⟩, -⟩, -⟩ := hm
    obtain ⟨-, -, hseat⟩ := h.tlb k' t ht hop hiss
    have hkk : k ≤ k' := by
      by_contra hlt
      have hz := writers_zero hw (Nat.lt_of_not_le hlt) ht
      simp [hop, Op.isCp0Wr] at hz
    -- the entry is not the `TLBR`, and in front of it is only a branch that is complete
    have hne : k ≠ k' := by
      rintro rfl
      obtain rfl := Option.some.inj (he.symm.trans ht)
      simp [hiss] at hni
    cases hseat with
    | head hk => omega
    | drain hk => omega
    | slot b hk hb hmis =>
      obtain rfl : k = 0 := by omega
      obtain rfl := Option.some.inj (he.symm.trans hb)
      have hd := hmis.done
      simp [Entry.done, hnc] at hd

/-- What is written when a read passes its check: the writes of everything that has
retired. -/
theorem written_gate (h : Cp0Inv p s) (hv : s.retireValid = false)
    (hr : readingTlb s.core = false) : s.written = s.retired.map Entry.cp0Write := by
  have hlaw := h.law
  simpa [Accounted, commits, hv, hr] using hlaw

/-- An entry that is executed in this cycle, or one that was executed before. -/
theorem issued_next {k : Nat} {e : Entry} (he : s.core.rob[k]? = some e)
    (hi : (e.next s.core (fed p s i) k).issued = true) :
    starting s.core (fed p s i) = some (k, e) ∧
        (e.next s.core (fed p s i) k).srcA = i.core.startA ∨
      starting s.core (fed p s i) ≠ some (k, e) ∧ e.issued = true ∧
        (e.next s.core (fed p s i) k).srcA = e.srcA := by
  by_cases hst : starting s.core (fed p s i) = some (k, e)
  · obtain ⟨hs, -, hm⟩ := starting_eq_some.mp hst
    exact .inl ⟨hst, (Entry.next_start hs hm).2⟩
  · have hno : ¬ ((fed p s i).start = some k ∧ mayStart s.core k e = true) :=
      fun hs => hst (starting_eq_some.mpr ⟨hs.1, he, hs.2⟩)
    obtain ⟨h1, h2⟩ := Entry.next_of_not_started hno
    exact .inr ⟨hst, h1.symm.trans hi, h2⟩

theorem alloc_not_issued {k : Nat} {e : Entry}
    (he : (newEntries s.core (fed p s i) (comb p s.core (fed p s i)))[k]? = some e) :
    e.issued = false := by
  obtain ⟨u, d, t, rfl, -, -⟩ := mem_newEntries (List.mem_of_getElem? he)
  rfl

theorem retireSeq_next (h : Cp0Inv p s) :
    (cp0Next p s i).retireSeq = (cp0Next p s i).retired.length % seqSize p := by
  change (s.retireSeq + _) % seqSize p = _
  rw [retired_length_next h, h.retireSeq, Nat.mod_add_mod]

theorem commitSeq_next (h : Cp0Inv p s) :
    ((cp0Next p s i).commitSeq + (cp0Next p s i).retireValid.toNat) % seqSize p =
      (cp0Next p s i).retired.length % seqSize p := by
  change ((s.commitSeq + s.retireValid.toNat) % seqSize p +
    (retiresWriter s.core (comb p s.core (fed p s i))).toNat) % seqSize p = _
  rw [retired_length_next h, h.commitSeq, Nat.mod_add_mod]

/-- Everything in front of the entries that are allocated. -/
theorem before_new (h : Cp0Inv p s) (hclr : (comb p s.core (fed p s i)).clrRob = false) (k : Nat) :
    before (cp0Next p s i) (s.core.rob.length - leaving (comb p s.core (fed p s i)) + k) =
      before s s.core.rob.length +
        writers ((newEntries s.core (fed p s i) (comb p s.core (fed p s i))).take k) := by
  have hle := leaving_le (p := p) (i := fed p s i) h.sane.rob h.sane.fits
  have hb := before_next h hclr (k := s.core.rob.length - leaving (comb p s.core (fed p s i)))
    (by omega)
  rw [Nat.add_sub_cancel' hle] at hb
  rw [← hb]
  simp only [before]
  change _ + writers ((next p s.core (fed p s i)).rob.take _) =
    _ + writers ((next p s.core (fed p s i)).rob.take _) + _
  have hlen : ((progress s.core (fed p s i)).drop (leaving (comb p s.core (fed p s i)))).length =
      s.core.rob.length - leaving (comb p s.core (fed p s i)) := by simp
  rw [rob_next hclr, ← hlen, List.take_length_add_append, List.take_left, writers_append,
    Nat.add_assoc]

theorem allocSeq_next (h : Cp0Inv p s) :
    (cp0Next p s i).allocSeq =
      before (cp0Next p s i) (cp0Next p s i).core.rob.length % seqSize p := by
  cases hclr : (comb p s.core (fed p s i)).clrRob with
  | true =>
    have hrob : (cp0Next p s i).core.rob = [] := rob_clear hclr
    have hseq : (cp0Next p s i).allocSeq = (cp0Next p s i).retireSeq := by
      simp only [cp0Next, hclr, if_true]
    rw [hseq, retireSeq_next h]
    simp [before, hrob]
  | false =>
    have hle := leaving_le (p := p) (i := fed p s i) h.sane.rob h.sane.fits
    have hlen : (cp0Next p s i).core.rob.length =
        s.core.rob.length - leaving (comb p s.core (fed p s i)) +
          (newEntries s.core (fed p s i) (comb p s.core (fed p s i))).length := by
      change (next p s.core (fed p s i)).rob.length = _
      rw [rob_next hclr]
      simp
    have hnew := writers_new (alloc_turn (p := p) (i := fed p s i) h.sane.rob h.sane.fits)
    have hseq : (cp0Next p s i).allocSeq =
        (s.allocSeq + allocsWriters s.core (comb p s.core (fed p s i))) % seqSize p := by
      simp [cp0Next, hclr]
    rw [hseq, hlen, before_new h hclr, List.take_length, hnew, h.allocSeq, Nat.mod_add_mod]

/-- An entry has the number of the writers in front of it. -/
theorem tags_next (h : Cp0Inv p s) {k : Nat} {e' : Entry}
    (he' : (cp0Next p s i).core.rob[k]? = some e') :
    e'.tag.cp0Seq = before (cp0Next p s i) k % seqSize p := by
  obtain ⟨hclr, ⟨e, he, rfl⟩ | ⟨hk, hnew⟩⟩ := next_getElem? h.sane.rob h.sane.fits he'
  · have hlt := (List.getElem?_eq_some_iff.mp he).1
    rw [Entry.next_tag, before_next h hclr (by omega)]
    exact h.tags _ e he
  · obtain ⟨j, rfl⟩ : ∃ j, k = s.core.rob.length - leaving (comb p s.core (fed p s i)) + j :=
      ⟨k - (s.core.rob.length - leaving (comb p s.core (fed p s i))), by omega⟩
    have hle := leaving_le (p := p) (i := fed p s i) h.sane.rob h.sane.fits
    have hj : leaving (comb p s.core (fed p s i)) +
        (s.core.rob.length - leaving (comb p s.core (fed p s i)) + j) - s.core.rob.length = j := by
      omega
    rw [hj] at hnew
    rw [before_new h hclr]
    have hlt := (List.getElem?_eq_some_iff.mp hnew).1
    have hturn := alloc_turn (p := p) (i := fed p s i) h.sane.rob h.sane.fits
    cases hturn with
    | none ha h2 hn => simp [hn] at hnew
    | one u us hdq ha h2 hn =>
      simp only [hn, List.length_singleton, Nat.lt_one_iff] at hlt
      simp only [hn, hlt, List.getElem?_cons_zero, Option.some.injEq] at hnew
      rw [← hnew, hlt]
      exact h.allocSeq
    | two u v us hdq ha h2 hn =>
      simp only [hn, List.length_cons, List.length_nil] at hlt
      obtain rfl | rfl : j = 0 ∨ j = 1 := by omega
      · simp only [hn, List.getElem?_cons_zero, Option.some.injEq] at hnew
        rw [← hnew]
        exact h.allocSeq
      · simp only [hn, List.getElem?_cons_succ, List.getElem?_cons_zero, Option.some.injEq] at hnew
        have hone : writers ((newEntries s.core (fed p s i)
            (comb p s.core (fed p s i))).take 1) = u.op.isCp0Wr.toNat := by
          simp only [hn, List.take_succ_cons, List.take_zero, writers, List.countP_singleton,
            Entry.alloc]
          cases u.op.isCp0Wr <;> rfl
        rw [← hnew, hone]
        change (s.allocSeq + (s.core.dq[0]?.any (·.op.isCp0Wr)).toNat) % seqSize p = _
        rw [h.allocSeq, hdq, Nat.mod_add_mod]
        rfl

theorem staged_next (h : Cp0Inv p s) {k : Nat} {e' : Entry}
    (he' : (cp0Next p s i).core.rob[k]? = some e') (hm : e'.uop.op.moves = true)
    (hi : e'.issued = true) : (cp0Next p s i).stage (robSlot p (cp0Next p s i) k) = e'.staged := by
  obtain ⟨hclr, ⟨e, he, rfl⟩ | ⟨-, hnew⟩⟩ := next_getElem? h.sane.rob h.sane.fits he'
  · rw [robSlot_next hclr]
    change stageNext p s i _ = _
    rw [Entry.next_uop] at hm
    obtain ⟨hst, ha⟩ | ⟨hst, hiss, ha⟩ := issued_next he hi
    · rw [stageNext_start hst hm]
      simp only [Entry.staged, ha, Entry.next_uop]
      rfl
    · rw [stageNext_keep h.short he hst, h.staged _ e he hm hiss]
      simp [Entry.staged, ha]
  · simp [alloc_not_issued hnew] at hi

theorem moves_isCp0Wr {op : Op} (h : op.moves = true) : op.isCp0Wr = true := by
  revert h
  cases op <;> simp [Op.moves, Op.isCp0Wr]

theorem moves_int {e : Entry} (h : e.uop.op.moves = true) :
    e.uop.isInt = true ∧ e.uop.op.fold = false := by
  have hs : e.uop.op.serializes = true := by
    revert h
    cases e.uop.op <;> simp [Op.moves, Op.serializes]
  refine ⟨(e.uop.ok.plain hs).1, ?_⟩
  revert h
  cases e.uop.op <;> simp [Op.moves, Op.fold]

/-- A move that has completed was executed. -/
theorem moved (h : Cp0Inv p s) {e : Entry} (he : e ∈ s.core.rob) (hm : e.uop.op.moves = true)
    (hd : e.done = true) : e.issued = true := by
  obtain ⟨hint, hfold⟩ := moves_int hm
  simp only [Entry.done, Bool.and_eq_true] at hd
  exact ((h.sound e he).ran hint hd.2).resolve_right (by simp [hfold])

theorem not_starting {t : State} {j : Input} {k : Nat} {e : Entry} (hd : e.done = true) :
    starting t j ≠ some (k, e) := by
  intro hst
  obtain ⟨-, -, hm⟩ := starting_eq_some.mp hst
  simp only [Entry.done, Bool.and_eq_true] at hd
  simp [mayStart, hd.2] at hm

theorem retirePtr_next (h : Cp0Inv p s) (hv : (cp0Next p s i).retireValid = true) :
    ∃ l e, (cp0Next p s i).retired = l ++ [e] ∧
      (cp0Next p s i).retireStaged = e.uop.op.moves ∧
      (e.uop.op.moves = true →
        (cp0Next p s i).stage (cp0Next p s i).retirePtr = e.staged) := by
  replace hv : retiresWriter s.core (comb p s.core (fed p s i)) = true := hv
  obtain ⟨e, es, hrob, hdone, hw, hret, -⟩ := retiresWriter_spec h hv
  have hhead : s.core.rob[0]? = some e := by simp [hrob]
  refine ⟨s.retired, e, ?_, ?_, ?_⟩
  · rw [retired_next h, if_pos hv, hrob]
    rfl
  · change ((comb p s.core (fed p s i)).retire && s.core.rob[0]?.any _) = _
    simp [hret, hrob]
  · intro hm
    have hslot : s.head = robSlot p s 0 := (Nat.mod_eq_of_lt h.headLt).symm
    change stageNext p s i s.head = _
    rw [hslot, stageNext_keep h.short hhead (not_starting hdone)]
    exact h.staged 0 e hhead hm (moved h (by simp [hrob]) hm hdone)

theorem readsAt_iff {k : Nat} {e : Entry} (he : s.core.rob[k]? = some e) :
    readsAt p s i k = true ↔
      starting s.core (fed p s i) = some (k, e) ∧ e.uop.op.isCp0Rd = true := by
  unfold readsAt
  constructor
  · intro h
    cases hst : starting s.core (fed p s i) with
    | none => simp [hst] at h
    | some x =>
      obtain ⟨j, f⟩ := x
      simp only [hst, Option.any_some, Bool.and_eq_true, decide_eq_true_eq] at h
      obtain ⟨rfl, hrd⟩ := h
      obtain ⟨-, hf, -⟩ := starting_eq_some.mp hst
      obtain rfl := Option.some.inj (hf.symm.trans he)
      exact ⟨rfl, hrd⟩
  · rintro ⟨hst, hrd⟩
    simp [hst, hrd]

/-- The int pipe does not execute a probe. -/
theorem not_probing {k : Nat} {e : Entry} (he : s.core.rob[k]? = some e)
    (hint : e.uop.isInt = true) : probing s i k = false := by
  have hop : e.uop.op ≠ .tlbp := by
    intro hop
    have hm := e.uop.ok.probe hop
    simp [(e.uop.ok.pipeInt hint).1] at hm
  simp [probing, he, hop]

theorem saw_next (h : Cp0Inv p s) {k : Nat} {e' : Entry}
    (he' : (cp0Next p s i).core.rob[k]? = some e') (hint : e'.uop.isInt = true)
    (hrd : e'.uop.op.isCp0Rd = true) (hi : e'.issued = true) :
    ∃ x, (cp0Next p s i).seen (robSlot p (cp0Next p s i) k) = some x ∧
      (x.gated = true → writers ((cp0Next p s i).core.rob.take k) = 0 ∧
        x.log = (cp0Next p s i).retired.map Entry.cp0Write) := by
  obtain ⟨hclr, ⟨e, he, rfl⟩ | ⟨-, hnew⟩⟩ := next_getElem? h.sane.rob h.sane.fits he'
  · rw [Entry.next_uop] at hint hrd
    have hlt := (List.getElem?_eq_some_iff.mp he).1
    rw [robSlot_next hclr]
    change ∃ x, seenNext p s i _ = some x ∧ _
    rw [seenNext_old h.sane h.short hlt, not_probing he hint, if_neg Bool.false_ne_true]
    obtain ⟨hst, -⟩ | ⟨hst, hiss, -⟩ := issued_next he hi
    · rw [if_pos ((readsAt_iff he).mpr ⟨hst, hrd⟩)]
      refine ⟨_, rfl, ?_⟩
      intro hg
      obtain ⟨hw, hv⟩ := started_gate h hst hrd (.inl (by simpa using hg))
      obtain ⟨hw', hret, -⟩ := quiet_prefix h hclr (by omega) hw
      exact ⟨hw', hret ▸ written_gate h hv (not_reading h hst hw)⟩
    · rw [if_neg (fun hr => hst ((readsAt_iff he).mp hr).1)]
      obtain ⟨x, hx, hlog⟩ := h.saw _ e he hint hrd hiss
      refine ⟨x, hx, ?_⟩
      intro hg
      obtain ⟨hw, hl⟩ := hlog hg
      obtain ⟨hw', hret, -⟩ := quiet_prefix h hclr (by omega) hw
      exact ⟨hw', hret ▸ hl⟩
  · simp [alloc_not_issued hnew] at hi

/-- Where an operation that uses the TLB was executed, in the next cycle. -/
theorem usesTlb_next (h : Cp0Inv p s) {k : Nat} {e' : Entry}
    (he' : (cp0Next p s i).core.rob[k]? = some e') (hu : e'.uop.op.usesTlb = true)
    (hi : e'.issued = true)
    (hstart : ∀ j e, starting s.core (fed p s i) = some (j, e) → e.uop = e'.uop →
      TlbSeat s.core j)
    (hold : ∀ j e, s.core.rob[j]? = some e → e.uop = e'.uop → e.issued = true →
      writers (s.core.rob.take j) = 0 ∧ TlbSeat s.core j) :
    (cp0Next p s i).retireValid = false ∧ writers ((cp0Next p s i).core.rob.take k) = 0 ∧
      TlbSeat (cp0Next p s i).core k := by
  obtain ⟨hclr, ⟨e, he, rfl⟩ | ⟨-, hnew⟩⟩ := next_getElem? h.sane.rob h.sane.fits he'
  · rw [Entry.next_uop] at hu hstart hold
    have hlt := (List.getElem?_eq_some_iff.mp he).1
    obtain ⟨hw, hseat⟩ : writers (s.core.rob.take
        (leaving (comb p s.core (fed p s i)) + k)) = 0 ∧
        TlbSeat s.core (leaving (comb p s.core (fed p s i)) + k) := by
      obtain ⟨hst, -⟩ | ⟨hst, hiss, -⟩ := issued_next he hi
      · exact ⟨(started_gate h hst (Op.usesTlb_spec hu).2.2.2.1 (.inr (usesTlb_oldest hu))).1,
          hstart _ e hst rfl⟩
      · exact hold _ e he rfl hiss
    obtain ⟨hw', -, hv⟩ := quiet_prefix h hclr (by omega) hw
    exact ⟨hv, hw', seat_kept h.sane.rob h.sound he hu hseat rfl⟩
  · simp [alloc_not_issued hnew] at hi

theorem tlb_next (h : Cp0Inv p s) (hno : strayTlbr s.core (fed p s i) = false) {k : Nat}
    {e' : Entry} (he' : (cp0Next p s i).core.rob[k]? = some e') (hop : e'.uop.op = .tlbr)
    (hi : e'.issued = true) :
    (cp0Next p s i).retireValid = false ∧ writers ((cp0Next p s i).core.rob.take k) = 0 ∧
      TlbSeat (cp0Next p s i).core k := by
  have hu : e'.uop.op.usesTlb = true := by simp [hop, Op.usesTlb]
  refine usesTlb_next h he' hu hi ?_ ?_
  · intro j e hst heq
    exact seat_of_start hst (heq ▸ hu) (strayTlbr_spec hno hst (heq ▸ hop))
  · intro j e he heq hiss
    exact (h.tlb j e he (heq ▸ hop) hiss).2

/-- A probe that retires is the head. -/
theorem probes_eq (h : Cp0Inv p s) :
    probes s.core (comb p s.core (fed p s i)) =
      if retiresWriter s.core (comb p s.core (fed p s i)) &&
          s.core.rob[0]?.any (fun e => decide (e.uop.op = .tlbp)) then
        s.core.rob[0]?.toList.map Entry.cp0Write
      else [] := by
  have hexit := exit_cases (p := p) (i := fed p s i) h.sane.rob h.sane.fits
  cases hexit with
  | none hl hr h2 => simp [probes, retiresWriter, hr, h2]
  | fault hs hl hr h2 => simp [probes, retiresWriter, hr, h2]
  | one e es hrob _ _ _ hl hr h2 =>
    by_cases hop : e.uop.op = .tlbp
    · simp [probes, retiresWriter, hr, h2, hrob, hop, Op.isCp0Wr]
    · simp [probes, retiresWriter, hr, h2, hrob, hop]
  | two e f es hrob _ _ _ _ hplain _ hl hr h2 =>
    have hf : f.uop.op ≠ .tlbp := fun hop => by simp [hop, Op.isCp0Wr] at hplain
    by_cases hop : e.uop.op = .tlbp
    · simp [probes, retiresWriter, hr, h2, hrob, hop, Op.isCp0Wr, hf]
    · simp [probes, retiresWriter, hr, h2, hrob, hop, hf]

/-- The staged write of the next cycle is that of the move that retires in this one. -/
theorem commits_next (h : Cp0Inv p s) :
    commits (cp0Next p s i) =
      if retiresWriter s.core (comb p s.core (fed p s i)) &&
          s.core.rob[0]?.any (·.uop.op.moves) then
        s.core.rob[0]?.toList.map Entry.cp0Write
      else [] := by
  cases hv : retiresWriter s.core (comb p s.core (fed p s i)) with
  | false =>
    have hv' : (cp0Next p s i).retireValid = false := hv
    simp [commits, hv']
  | true =>
    have hv' : (cp0Next p s i).retireValid = true := hv
    obtain ⟨e, es, hrob, hdone, hw, hret, -⟩ := retiresWriter_spec h hv
    obtain ⟨l, e', hl, hst, hdata⟩ := retirePtr_next h hv'
    rw [retired_next h, if_pos hv, hrob] at hl
    obtain ⟨-, rfl⟩ : s.retired = l ∧ e = e' := by simpa using hl
    cases hm : e.uop.op.moves with
    | false => simp [commits, hst, hrob, hm]
    | true =>
      have hne : e.uop.op ≠ .tlbp ∧ e.uop.op ≠ .tlbr := by
        constructor <;> intro hop <;> simp [hop, Op.moves] at hm
      simp [commits, hv', hst, hrob, hm, hdata hm, Entry.cp0Write, hne]

/-- An operation that uses the TLB and was executed stays until it retires at the head. -/
theorem usesTlb_stays (h : Cp0Inv p s) {k : Nat} {e : Entry} (he : s.core.rob[k]? = some e)
    (hu : e.uop.op.usesTlb = true) (hfault : e.done = true → e.faulted = true)
    (hseat : TlbSeat s.core k)
    (hret : k = 0 → (comb p s.core (fed p s i)).retire = false) :
    (comb p s.core (fed p s i)).clrRob = false ∧
      leaving (comb p s.core (fed p s i)) ≤ k := by
  refine ⟨seat_clear h.sane.rob h.sane.fits hseat, ?_⟩
  have hexit := exit_cases (p := p) (i := fed p s i) h.sane.rob h.sane.fits
  cases hexit with
  | none hl => omega
  | fault hs hl => cases hseat <;> simp_all
  | one f es hrob _ _ _ hl hr =>
    cases k with
    | zero => exact absurd (hret rfl) (by simp [hr])
    | succ k => omega
  | two f g es hrob _ hdone2 _ hfault2 _ _ hl hr =>
    match k with
    | 0 => exact absurd (hret rfl) (by simp [hr])
    | 1 =>
      obtain rfl : g = e := by simpa [hrob] using he
      exact absurd (hfault hdone2) (by simp [hfault2])
    | k + 2 => omega

/-- A `TLBR` restarts the fetch. -/
theorem tlbr_faulted (h : Cp0Inv p s) {e : Entry} (he : e ∈ s.core.rob)
    (hop : e.uop.op = .tlbr) (hd : e.done = true) : e.faulted = true := by
  simp only [Entry.done, Bool.and_eq_true] at hd
  exact (h.sound e he).tlbr hop hd.2

theorem tlbReads_eq {t : State} {j : Input} :
    tlbReads t j =
      if (starting t j).any (fun x => decide (x.2.uop.op = .tlbr)) then [.readTlb] else [] := by
  unfold tlbReads
  cases starting t j with
  | none => rfl
  | some x => by_cases hop : x.2.uop.op = .tlbr <;> simp [hop]

/-- A `TLBR` is under way if it is executed now, or if it was and no writer retires. -/
theorem readingTlb_next (h : Cp0Inv p s) (hno : strayTlbr s.core (fed p s i) = false)
    (hv : retiresWriter s.core (comb p s.core (fed p s i)) = false) :
    readingTlb (cp0Next p s i).core =
      ((starting s.core (fed p s i)).any (fun x => decide (x.2.uop.op = .tlbr)) ||
        readingTlb s.core) := by
  have stays {k : Nat} {e : Entry} (he : s.core.rob[k]? = some e) (hop : e.uop.op = .tlbr)
      (hseat : TlbSeat s.core k) (hi : (e.next s.core (fed p s i) k).issued = true) :
      readingTlb (cp0Next p s i).core = true := by
    have hmem := List.mem_of_getElem? he
    obtain ⟨hclr, hl⟩ := usesTlb_stays (i := i) h he (by simp [hop, Op.usesTlb])
      (tlbr_faulted h hmem hop) hseat (by
        rintro rfl
        simpa [retiresWriter, he, hop, Op.isCp0Wr] using hv)
    have hlt := (List.getElem?_eq_some_iff.mp he).1
    refine readingTlb_iff.mpr ⟨k - leaving (comb p s.core (fed p s i)),
      e.next s.core (fed p s i) k, ?_, by simpa using hop, hi⟩
    change (next p s.core (fed p s i)).rob[_]? = _
    rw [rob_next hclr, List.getElem?_append_left (by simp; omega), List.getElem?_drop,
      Nat.add_sub_cancel' hl, progress_getElem?, he]
    rfl
  rw [Bool.eq_iff_iff]
  constructor
  · intro hr
    obtain ⟨k, e', he', hop, hi⟩ := readingTlb_iff.mp hr
    obtain ⟨-, ⟨e, he, rfl⟩ | ⟨-, hnew⟩⟩ := next_getElem? h.sane.rob h.sane.fits he'
    · rw [Entry.next_uop] at hop
      obtain ⟨hst, -⟩ | ⟨-, hiss, -⟩ := issued_next he hi
      · simp [hst, hop]
      · rw [Bool.or_eq_true]
        exact .inr (readingTlb_iff.mpr ⟨_, e, he, hop, hiss⟩)
    · simp [alloc_not_issued hnew] at hi
  · rw [Bool.or_eq_true]
    rintro (hst | hr)
    · cases hx : starting s.core (fed p s i) with
      | none => simp [hx] at hst
      | some x =>
        obtain ⟨k, e⟩ := x
        have hop : e.uop.op = .tlbr := by simpa [hx] using hst
        obtain ⟨hs, he, hm⟩ := starting_eq_some.mp hx
        exact stays he hop (seat_of_start hx (by simp [hop, Op.usesTlb])
          (strayTlbr_spec hno hx hop)) (Entry.next_start hs hm).1
    · obtain ⟨k, e, he, hop, hi⟩ := readingTlb_iff.mp hr
      obtain ⟨-, -, hseat⟩ := h.tlb k e he hop hi
      exact stays he hop hseat (Entry.next_of_issued hi).1

/-- While a writer retires, a `TLBR` is under way only if it is that writer. -/
theorem retiring_reading (h : Cp0Inv p s) {e : Entry} {es : List Entry}
    (hrob : s.core.rob = e :: es) (hdone : e.done = true) (hw : e.uop.op.isCp0Wr = true) :
    (starting s.core (fed p s i)).any (fun x => decide (x.2.uop.op = .tlbr)) = false ∧
      readingTlb s.core = decide (e.uop.op = .tlbr) := by
  have hhead : s.core.rob[0]? = some e := by simp [hrob]
  constructor
  · cases hx : starting s.core (fed p s i) with
    | none => rfl
    | some x =>
      obtain ⟨k, f⟩ := x
      by_cases hop : f.uop.op = .tlbr
      · have hrd : f.uop.op.isCp0Rd = true := by simp [hop, Op.isCp0Rd]
        obtain ⟨hz, -⟩ := started_gate h hx hrd (.inr (usesTlb_oldest (by simp [hop, Op.usesTlb])))
        cases k with
        | zero =>
          obtain ⟨-, hf, -⟩ := starting_eq_some.mp hx
          obtain rfl := Option.some.inj (hhead.symm.trans hf)
          exact (not_starting hdone hx).elim
        | succ k =>
          have := writers_zero hz (Nat.succ_pos k) hhead
          simp [hw] at this
      · simp [hop]
  · rw [Bool.eq_iff_iff, readingTlb_iff, decide_eq_true_eq]
    constructor
    · rintro ⟨k, f, hf, hop, hi⟩
      obtain ⟨-, hz, -⟩ := h.tlb k f hf hop hi
      cases k with
      | zero =>
        obtain rfl := Option.some.inj (hhead.symm.trans hf)
        exact hop
      | succ k =>
        have := writers_zero hz (Nat.succ_pos k) hhead
        simp [hw] at this
    · intro hop
      have hmem : e ∈ s.core.rob := by simp [hrob]
      simp only [Entry.done, Bool.and_eq_true] at hdone
      have hint := e.uop.ok.now (by simp [hop, Op.writesNow])
      exact ⟨0, e, hhead, hop,
        ((h.sound e hmem).ran hint hdone.2).resolve_right (by simp [hop, Op.fold])⟩

theorem law_next (h : Cp0Inv p s) (hno : strayTlbr s.core (fed p s i) = false)
    (htlb : ∀ (k : Nat) (e : Entry), (cp0Next p s i).core.rob[k]? = some e →
      e.uop.op = .tlbr → e.issued = true → (cp0Next p s i).retireValid = false) : Accounted (cp0Next p s i) := by
  have hlaw : s.written ++ commits s = s.retired.map Entry.cp0Write ++
      if readingTlb s.core then [.readTlb] else [] := h.law
  change s.written ++ commits s ++ probes s.core (comb p s.core (fed p s i)) ++
    tlbReads s.core (fed p s i) ++ commits (cp0Next p s i) = _
  rw [hlaw, probes_eq h, tlbReads_eq, commits_next h, retired_next h]
  cases hv : retiresWriter s.core (comb p s.core (fed p s i)) with
  | false =>
    rw [readingTlb_next h hno hv]
    -- a `TLBR` that is executed now is the only one
    have hone : (starting s.core (fed p s i)).any (fun x => decide (x.2.uop.op = .tlbr)) = true →
        readingTlb s.core = false := by
      intro hst
      cases hx : starting s.core (fed p s i) with
      | none => simp [hx] at hst
      | some x =>
        obtain ⟨k, e⟩ := x
        have hop : e.uop.op = .tlbr := by simpa [hx] using hst
        have hrd : e.uop.op.isCp0Rd = true := by simp [hop, Op.isCp0Rd]
        exact not_reading h hx (started_gate h hx hrd (.inr (usesTlb_oldest (by simp [hop, Op.usesTlb])))).1
    cases hst : (starting s.core (fed p s i)).any (fun x => decide (x.2.uop.op = .tlbr)) with
    | false => simp
    | true => simp [hone hst]
  | true =>
    obtain ⟨e, es, hrob, hdone, hw, -⟩ := retiresWriter_spec h hv
    obtain ⟨hst, hr⟩ := retiring_reading (i := i) h hrob hdone hw
    have hr' : readingTlb (cp0Next p s i).core = false := by
      cases hr' : readingTlb (cp0Next p s i).core with
      | false => rfl
      | true =>
        obtain ⟨k, t, ht, hop, hi⟩ := readingTlb_iff.mp hr'
        have hf : retiresWriter s.core (comb p s.core (fed p s i)) = false := htlb k t ht hop hi
        simp [hf] at hv
    rw [hst, hr, hr']
    have hkind : e.uop.op = .tlbp ∨ e.uop.op = .tlbr ∨ e.uop.op.moves = true := by
      revert hw
      cases e.uop.op <;> simp [Op.isCp0Wr, Op.moves]
    obtain hop | hop | hm := hkind
    · simp [hrob, hop, Op.moves]
    · simp [hrob, hop, Op.moves, Entry.cp0Write]
    · have hne : e.uop.op ≠ .tlbp ∧ e.uop.op ≠ .tlbr := by
        constructor <;> intro hop <;> simp [hop, Op.moves] at hm
      simp [hrob, hm, hne]

theorem cp0Inv_next (h : Cp0Inv p s) (hno : strayTlbr s.core (fed p s i) = false) :
    Cp0Inv p (cp0Next p s i) where
  sane := sane_next h.sane
  sound := robSound_next h.sound
  trapping := trapping_next h.sane.rob h.sane.fits
  short := rob_le h.sane.rob h.sane.fits h.short
  headLt := by
    change (if _ then 0 else _ % p.robEntries) < p.robEntries
    have hpos := p.robEntries_pos
    split
    · omega
    · exact Nat.mod_lt _ (by omega)
  allocSeq := allocSeq_next h
  retireSeq := retireSeq_next h
  commitLt := Nat.mod_lt _ (seqSize_pos p)
  commitSeq := commitSeq_next h
  tags := fun _ _ => tags_next h
  staged := fun _ _ => staged_next h
  stagedValid := by
    change ((comb p s.core (fed p s i)).retire && _) = true →
      ((comb p s.core (fed p s i)).retire && _) = true
    simp only [Bool.and_eq_true, Option.any_eq_true]
    rintro ⟨hr, e, he, hm⟩
    exact ⟨hr, e, he, moves_isCp0Wr hm⟩
  pending := retirePtr_next h
  saw := fun _ _ => saw_next h
  tlb := fun _ _ => tlb_next h hno
  law := law_next h hno fun _ _ he hop hi => (tlb_next h hno he hop hi).1

theorem cp0Inv_reset (p : Params) (stage : Nat → Staged) : Cp0Inv p (cp0Reset stage) where
  sane := sane_reset
  sound e he := by simp [cp0Reset, reset] at he
  trapping h := by cases h
  short := Nat.zero_le _
  headLt := by
    have hpos := p.robEntries_pos
    change 0 < p.robEntries
    omega
  allocSeq := rfl
  retireSeq := rfl
  commitLt := seqSize_pos p
  commitSeq := rfl
  tags k e he := by simp [cp0Reset, reset] at he
  staged k e he := by simp [cp0Reset, reset] at he
  stagedValid h := by cases h
  pending h := by cases h
  saw k e he := by simp [cp0Reset, reset] at he
  tlb k e he := by simp [cp0Reset, reset] at he
  law := rfl

end Step

end Core

end R9999
