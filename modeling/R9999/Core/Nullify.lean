import R9999.Core.Fcsr
import R9999.Core.Serial

/-!
# Nullified delay slots

A branch-likely that is not taken nullifies its delay slot.  Two copies of the
architectural state are kept side by side: one takes every effect of the core, the other
leaves out those of the operations that a branch-likely nullifies, as if the slot had been
a `NOP`.  What the architectural state is, and what each effect does to it, is left open.

Most operations have their effect when they retire.  `CTC1`, `ERET` and the TLB operations
have it when the int pipe executes them.
-/

namespace R9999

namespace Core

/-- The ways in which the core changes the architectural state. -/
inductive Effect where
  /-- An operation that writes when it is executed, with its operand. -/
  | execute (u : Uop) (a : BitVec 64)
  | retire (e : Entry)
  /-- The exception of an entry. -/
  | fault (e : Entry)

/-- The meaning of the effects on an architectural state. -/
structure Arch (α : Type*) where
  execute : Uop → BitVec 64 → α → α
  retire : Entry → α → α
  fault : Entry → α → α

def Arch.apply {α : Type*} (A : Arch α) (a : α) : Effect → α
  | .execute u x => A.execute u x a
  | .retire e => A.retire e a
  | .fault e => A.fault e a

/-- A branch-likely that is not known to be taken. -/
def Entry.nullifies (b : Entry) : Bool := b.uop.hasNullifyingDelaySlot && !b.takeBr

section Effects

variable (s : State) (i : Input) (c : Comb)

/-- The branch that is being drained was a branch-likely that is not taken. -/
def drainsNullified : Bool :=
  (decide (s.regs.state = .drain) || decide (s.regs.state = .rat)) &&
    s.regs.hasNullifyingDelaySlot && !s.regs.takeBr

/-- The entry `k` places from the head is the slot of a branch-likely that is not known to
be taken, or younger than it. -/
def nullified (k : Nat) : Bool := drainsNullified s || (s.rob.take k).any Entry.nullifies

/-- The execution of an operation that writes at once, with its place. -/
def executions : List (Nat × Effect) :=
  match i.start with
  | none => []
  | some k =>
    match s.rob[k]? with
    | none => []
    | some e =>
      if mayStart s k e && e.uop.op.writesNow then [(k, .execute e.uop i.startA)] else []

def retirements : List (Nat × Effect) := (retiring s c).mapIdx fun k e => (k, .retire e)

/-- The entry whose exception is taken: the head, or a serializing operation in the slot. -/
def faultPlace : Nat := if s.regs.state = .waitForSerializeInFaultedDelaySlot then 1 else 0

/-- The exception that is entered. -/
def exceptions : List (Nat × Effect) :=
  if c.n.state = .archFault ∧ s.regs.state ≠ .archFault then
    s.rob[faultPlace s]?.toList.map fun e => (faultPlace s, .fault e)
  else []

/-- The effects of a cycle. -/
def effects : List (Nat × Effect) := executions s i ++ retirements s c ++ exceptions s c

end Effects

/-! ## The machine -/

/-- The core with its architectural state, and the one that it would have with a `NOP` in
every nullified slot. -/
structure NullState (α : Type*) where
  core : State
  arch : α
  ideal : α

section Machine

variable {α : Type*} (A : Arch α) (p : Params)

def nullNext (s : NullState α) (i : Input) : NullState α :=
  let es := effects s.core i (comb p s.core i)
  { core := next p s.core i
    arch := (es.map (·.2)).foldl A.apply s.arch
    ideal := ((es.filter fun x => !nullified s.core x.1).map (·.2)).foldl A.apply s.ideal }

def nullReset (a : α) : NullState α := ⟨reset, a, a⟩

end Machine

/-- A `CTC1` is about to be allocated behind a branch-likely that is not taken. -/
def nullCtc1 (s : State) : Bool :=
  decide (s.regs.state = .serializeInFaultedDelaySlot) && s.rob[0]?.any Entry.nullifies &&
    s.dq[0]?.any fun u => decide (u.op = .ctc1)

/-- The nullified slot is itself a mispredicted branch, and what follows it would write when
it is executed. -/
def nullBranch (s : State) : Bool :=
  drainsNullified s && dsCommittable s && s.rob[1]?.any fun e => e.uop.op.writesNow

/-- Neither of the two ways in which a nullified operation is executed. -/
def SlotInert (s : State) : Prop := nullCtc1 s = false ∧ nullBranch s = false

instance (s : State) : Decidable (SlotInert s) := inferInstanceAs (Decidable (_ ∧ _))

/-! ## The invariant -/

structure NullInv (s : State) : Prop where
  sane : Sane s
  placed : Placed s
  /-- A `CTC1` in a slot is not in that of a branch-likely that is not taken. -/
  slot : ∀ b e, s.rob[0]? = some b → s.rob[1]? = some e → e.uop.op = .ctc1 →
    s.regs.state = .waitForSerializeInFaultedDelaySlot ∨ s.regs.state = .active →
      b.nullifies = false
  /-- Nothing is executed any more when the reorder buffer is about to be cleared. -/
  done : s.regs.state = .exceptionDrain ∨ s.regs.state = .rat → s.regs.dsDone = true

theorem nullInv_reset : NullInv reset where
  sane := sane_reset
  placed := placed_reset
  slot := by
    intro b e hb
    simp [reset] at hb
  done := by
    rintro (h | h) <;> cases h

section Step

variable {p : Params} {s : State} {i : Input}

theorem tick_dsDone_next (c : Comb) : (finish s c).n.dsDone = c.n.dsDone := rfl

/-- The reorder buffer is cleared only after the slot is done with. -/
theorem done_next (h : NullInv s)
    (hs : (next p s i).regs.state = .exceptionDrain ∨ (next p s i).regs.state = .rat) :
    (next p s i).regs.dsDone = true := by
  have hn := state_next (p := p) (i := i) h.sane.rob h.sane.fits
  have hfrom : s.regs.state = .writeEpc ∨ s.regs.state = .exceptionDrain ∨
      s.regs.state = .drain ∨ s.regs.state = .rat := by
    revert hn
    obtain hs | hs := hs <;> rw [hs] <;> cases s.regs.state <;> simp [FsmState.succs]
  obtain hst | hst | hst | hst := hfrom
  · simp [next, comb, arm, hst, finish, writeEpc]
  · have hd := h.done (.inl hst)
    simp only [next, comb, arm, hst, finish, exceptionDrain]
    split
    · exact hd
    · exact hd
  · obtain ⟨c, hturn, hcomb⟩ := comb_drain (p := p) (i := i) hst
    cases hturn with
    | rat hds => simpa [next, hcomb, finish] using hds
    | wait => simp [next, hcomb, finish, hst] at hs
    | nullify => simp [next, hcomb, finish]
    | fault => simp [next, hcomb, finish]
    | retire => simp [next, hcomb, finish]
  · have hd := h.done (.inr hst)
    simp only [next, comb_rat hst, finish, rat] at hs ⊢
    split at hs
    · simp at hs
    next hack =>
      rw [if_neg hack]
      exact hd

/-- A `CTC1` that was allocated in a slot keeps its branch. -/
theorem slot_next (h : NullInv s) (hk : nullCtc1 s = false) {b e : Entry}
    (hb : (next p s i).rob[0]? = some b) (he : (next p s i).rob[1]? = some e)
    (hop : e.uop.op = .ctc1)
    (hst : (next p s i).regs.state = .waitForSerializeInFaultedDelaySlot ∨
      (next p s i).regs.state = .active) : b.nullifies = false := by
  have hok := h.sane.rob
  have hf := h.sane.fits
  have same {b₀ : Entry} (hl : leaving (comb p s i) = 0) (hclr : (comb p s i).clrRob = false)
      (hb₀ : s.rob[0]? = some b₀) (hdone : b₀.done = true) : b = b₀ :=
    Option.some.inj (hb.symm.trans (head_kept hl hclr hb₀ hdone))
  have he' := he
  simp only [next, nextRob] at he'
  split at he'
  · cases he'
  next hclr =>
    replace hclr : (comb p s i).clrRob = false := by simpa using hclr
    rw [List.getElem?_append] at he'
    split at he'
    next hk1 =>
      obtain ⟨e₀, hg, rfl⟩ := kept_getElem? he'
      rw [Entry.next_uop] at hop
      have hseat := h.placed _ e₀ hg (e₀.uop.ok.ctc1 hop)
      cases hseat with
      | alone hk0 => omega
      | head hk0 => omega
      | drain hk0 => omega
      | slot b₀ hk0 hb₀ hmis hs =>
        rw [same (by omega) hclr hb₀ hmis.done]
        refine h.slot b₀ e₀ hb₀ (hk0 ▸ hg) hop ?_
        obtain hs | ⟨hs, -⟩ := hs
        · exact .inl hs
        · exact .inr hs
      | dead _ _ hs =>
        have hd := dead_state hok hf hclr hs
        obtain hst | hst := hst <;> simp [hst] at hd
    next hk1 =>
      obtain ⟨u, d, t, rfl, ha, hu⟩ := mem_newEntries (List.mem_of_getElem? he')
      change u.op = .ctc1 at hop
      obtain ⟨hs | hs, ⟨us, hdq⟩, -⟩ := new_serial hok hf ha hu (u.ok.ctc1 hop)
      · have hn := state_next (p := p) (i := i) hok hf
        obtain hst | hst := hst <;> simp [hs, hst, FsmState.succs] at hn
      · simp only [Fits, hs] at hf
        obtain ⟨b₀, hrob, hmis, -⟩ := hf
        have hl : leaving (comb p s i) = 0 := by
          obtain hc | ⟨-, hc⟩ := alone_turn (p := p) (i := i) (.inr ⟨hs, rfl⟩) <;>
            simp [hc, finish, leaving]
        rw [same hl hclr (by simp [hrob]) hmis.done]
        simpa [nullCtc1, hs, hrob, hdq, hop] using hk

theorem nullInv_next (h : NullInv s) (hk : SlotInert s) : NullInv (next p s i) where
  sane := sane_next h.sane
  placed := placed_next h.sane.rob h.sane.fits h.placed
  slot := fun _ _ => slot_next h hk.1
  done := done_next h

/-- No operation is executed while a branch-likely nullifies it. -/
theorem executions_inert (h : NullInv s) (hk : SlotInert s) :
    ∀ x ∈ executions s i, nullified s x.1 = false := by
  intro x hx
  unfold executions at hx
  split at hx
  · cases hx
  next k hstart =>
    split at hx
    · cases hx
    next e he =>
      split at hx
      next hm =>
        simp only [Bool.and_eq_true] at hm
        obtain ⟨hmay, hop⟩ := hm
        rw [List.mem_singleton.mp hx]
        change nullified s k = false
        simp only [mayStart, Bool.and_eq_true, Bool.or_eq_true, Bool.not_eq_true',
          decide_eq_true_eq] at hmay
        obtain ⟨⟨⟨⟨-, -⟩, hcomp⟩, hds⟩, hold⟩ := hmay
        have hrat : s.regs.state ≠ .rat := by
          intro hs
          simp [h.done (.inr hs)] at hds
        have hopen : e.done = false := by simp [Entry.done, hcomp]
        obtain ho | hctc := e.uop.ok.oldest hop
        · simp only [ho, Bool.true_eq_false, false_or] at hold
          obtain ⟨rfl, hv⟩ | ⟨rfl, hv⟩ := hold
          · -- the head is not nullified, or the core would not let it start
            simp only [headValid, Bool.or_eq_true, Bool.and_eq_true, Bool.not_eq_true',
              Bool.and_eq_false_iff, decide_eq_true_eq] at hv
            obtain hs | ⟨⟨-, -⟩, hn | hn⟩ := hv
            · simp [nullified, drainsNullified, hs]
            · simp [nullified, drainsNullified, hn]
            · simp only [Bool.not_eq_false'] at hn
              simp [nullified, drainsNullified, hn]
          · have hd : drainsNullified s = false := by
              simpa [nullBranch, hv, he, hop] using hk.2
            simp only [dsCommittable] at hv
            cases hrob : s.rob with
            | nil => simp [hrob] at hv
            | cons b bs =>
              simp only [hrob, List.getElem?_cons_zero, Option.any_some, Bool.and_eq_true,
                Bool.not_eq_true'] at hv
              simp [nullified, hd, hrob, Entry.nullifies, hv.2]
        · have hseat := h.placed k e he (e.uop.ok.ctc1 hctc)
          cases hseat with
          | alone hk0 hs => simp [nullified, drainsNullified, hs, hk0]
          | head _ _ hdone => simp [hdone] at hopen
          | drain _ _ hdone => simp [hdone] at hopen
          | dead _ hdone => simp [hdone] at hopen
          | slot b hk1 hb hmis hs =>
            obtain hs | ⟨-, hdone⟩ := hs
            · have hb0 := h.slot b e hb (hk1 ▸ he) hctc (.inl hs)
              obtain ⟨bs, hrob⟩ := rob_head hb
              simp [nullified, drainsNullified, hs, hk1, hrob, hb0]
            · simp [hdone] at hopen
      next => cases hx

theorem retirements_inert (h : NullInv s) :
    ∀ x ∈ retirements s (comb p s i), nullified s x.1 = false := by
  intro x hx
  simp only [retirements, List.mem_mapIdx] at hx
  obtain ⟨k, hk, rfl⟩ := hx
  change nullified s k = false
  cases hr : (comb p s i).retire with
  | false => simp [retiring, hr] at hk
  | true =>
    simp only [retiring, hr, if_true, List.length_take] at hk
    obtain hs | hs := retire_state h.sane.rob h.sane.fits hr
    · cases htwo : (comb p s i).retireTwo with
      | false =>
        have hk0 : k = 0 := by
          simp only [htwo, if_neg Bool.false_ne_true] at hk
          omega
        simp [nullified, drainsNullified, hs, hk0]
      | true =>
        obtain ⟨b, bs, hrob, hdone, hfault⟩ := retireTwo_head hs htwo
        have hb : b.nullifies = false := by
          cases hn : b.uop.hasNullifyingDelaySlot with
          | false => simp [Entry.nullifies, hn]
          | true =>
            simp only [Entry.done, Bool.and_eq_true] at hdone
            have hl := (h.sane.rob b (by simp [hrob])).likely hn hdone.2
            simp only [hfault, Bool.false_eq_true, false_or] at hl
            simp [Entry.nullifies, hl]
        have hk1 : k = 0 ∨ k = 1 := by
          simp only [htwo, if_true] at hk
          omega
        obtain rfl | rfl := hk1
        · simp [nullified, drainsNullified, hs]
        · simp [nullified, drainsNullified, hs, hrob, hb]
    · obtain ⟨htwo, -, hbr⟩ := drain_retire hs hr
      have hk0 : k = 0 := by
        simp only [htwo, if_neg Bool.false_ne_true] at hk
        omega
      cases hn : s.regs.hasNullifyingDelaySlot with
      | false => simp [nullified, drainsNullified, hn, hk0]
      | true => simp [nullified, drainsNullified, hbr hn, hk0]

theorem exceptions_inert (h : NullInv s) :
    ∀ x ∈ exceptions s (comb p s i), nullified s x.1 = false := by
  intro x hx
  unfold exceptions at hx
  split at hx
  next hst =>
    obtain ⟨hst, -⟩ := hst
    obtain ⟨e, -, rfl⟩ := List.mem_map.mp hx
    change nullified s (faultPlace s) = false
    have hn := state_next (p := p) (i := i) h.sane.rob h.sane.fits
    change (comb p s i).n.state ∈ s.regs.state.succs at hn
    rw [hst] at hn
    have hfrom : s.regs.state = .active ∨ s.regs.state = .drain := by
      revert hn
      cases s.regs.state <;> simp [FsmState.succs]
    obtain hs | hs := hfrom
    · simp [nullified, drainsNullified, faultPlace, hs]
    · obtain ⟨c, hturn, hcomb⟩ := comb_drain (p := p) (i := i) hs
      cases hturn with
      | fault f fs hrob hds hdone harch hbr =>
        cases hn : s.regs.hasNullifyingDelaySlot with
        | false => simp [nullified, drainsNullified, faultPlace, hs, hn]
        | true => simp [nullified, drainsNullified, faultPlace, hs, hbr hn]
      | _ => simp [hcomb, finish, hs] at hst
  next => cases hx

end Step

/-- FCSR alone, as the architectural state. -/
def fcsrArch : Arch (BitVec 32) where
  execute u a v := if u.op = .ctc1 then ctc1Value a else v
  retire e v := if e.fpSetFlags then fcsrMerge v e.fpFlags (e.fpFlags.truncate 5) else v
  fault e v := if trapsFp e then fcsrMerge v e.fpFlags 0 else v

/-- A branch-likely that is not taken, with the given operation in its slot. -/
def likelyFails (a : Insn) (slot : List Input) : List Input :=
  boot ++
    [{ quiet with insn := some ⟨.branch true 0x1000, true, false, by decide⟩, insnTwo := some a },
     quiet, { quiet with start := some 0 },
     { quiet with intDone := some (0, IntResult.of false 0x1008 false 0) }] ++ slot ++
    [quiet, quiet, { quiet with restartAck := true }, quiet]

/-- The `CTC1` in the slot has been executed when the branch nullifies it. -/
def ctc1Nullified : List Input :=
  likelyFails ⟨.serial .ctc1 Op.ctc1_serializes false false 0x1004, false, false, by decide⟩
    [quiet, quiet, { quiet with start := some 1, startA := 1 },
     { quiet with intDone := some (1, IntResult.of false 0x1008 false 0) }, quiet]

end Core

end R9999
