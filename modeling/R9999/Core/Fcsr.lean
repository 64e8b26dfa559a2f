import Mathlib.Tactic.IntervalCases
import R9999.Core.Step

/-!
# The FP control and status register

`exec.sv` holds FCSR without the condition codes.  A `CTC1` overwrites it when the int pipe
executes it; the Cause and Flags fields of an arithmetic operation are parked with its
reorder buffer entry and merged when the core raises `core_fcsr_we`.

The law of the register is stated over the history of what retired or trapped: Flags are
the union of the flags since the last `CTC1`, Cause is that of the youngest operation.
-/

namespace R9999

namespace Core

/-! ## The register -/

/-- The condition code bits, which are kept elsewhere. -/
def fccMask : BitVec 32 := 0xFE800000

def fcsrFlags (v : BitVec 32) : BitVec 5 := v.extractLsb' 2 5

def fcsrCause (v : BitVec 32) : BitVec 6 := v.extractLsb' 12 6

/-- `core_fcsr_we`: replace Cause and add to Flags. -/
def fcsrMerge (v : BitVec 32) (cause : BitVec 6) (flags : BitVec 5) : BitVec 32 :=
  (v &&& ~~~0x0003F000#32) ||| (cause.zeroExtend 32 <<< 12) ||| (flags.zeroExtend 32 <<< 2)

/-- The value that `CTC1` writes. -/
def ctc1Value (a : BitVec 64) : BitVec 32 := a.truncate 32 &&& ~~~fccMask

@[simp] theorem fcsrCause_merge (v : BitVec 32) (c : BitVec 6) (f : BitVec 5) :
    fcsrCause (fcsrMerge v c f) = c := by
  apply BitVec.eq_of_getLsbD_eq
  intro k hk
  unfold fcsrCause fcsrMerge
  interval_cases k <;> simp

@[simp] theorem fcsrFlags_merge (v : BitVec 32) (c : BitVec 6) (f : BitVec 5) :
    fcsrFlags (fcsrMerge v c f) = fcsrFlags v ||| f := by
  apply BitVec.eq_of_getLsbD_eq
  intro k hk
  unfold fcsrFlags fcsrMerge
  interval_cases k <;> simp

/-! ## The law -/

/-- What the history of the register records. -/
inductive FpEvent where
  /-- A `CTC1` retired, with the value it wrote. -/
  | ctc1 (v : BitVec 32)
  /-- An arithmetic operation retired, with its exceptions. -/
  | arith (f : BitVec 6)
  /-- An arithmetic operation trapped, with its exceptions. -/
  | trap (f : BitVec 6)
  deriving DecidableEq, Repr

/-- The union of the flags since the last `CTC1`, youngest event first. -/
def flagsLaw : List FpEvent → BitVec 5
  | [] => 0
  | .ctc1 v :: _ => fcsrFlags v
  | .arith f :: es => flagsLaw es ||| f.truncate 5
  | .trap _ :: es => flagsLaw es

/-- The exceptions of the youngest event. -/
def causeLaw : List FpEvent → BitVec 6
  | [] => 0
  | .ctc1 v :: _ => fcsrCause v
  | .arith f :: _ => f
  | .trap f :: _ => f

/-- The register agrees with the history. -/
def Lawful (v : BitVec 32) (log : List FpEvent) : Prop :=
  fcsrFlags v = flagsLaw log ∧ fcsrCause v = causeLaw log

/-- What the retirement of an entry records. -/
def Entry.fpEvent (e : Entry) : Option FpEvent :=
  if e.uop.op = .ctc1 then some (.ctc1 (ctc1Value e.srcA))
  else if e.fpSetFlags then some (.arith e.fpFlags)
  else none

/-- The FP operation that traps in a cycle. -/
def trapping (s : State) : List FpEvent :=
  match s.regs.state, s.rob with
  | .archFault, e :: _ => if e.isFpe then [.trap e.fpFlags] else []
  | _, _ => []

/-- The events of a cycle, youngest first. -/
def fpEvents (s : State) (c : Comb) : List FpEvent :=
  trapping s ++ ((retiring s c).filterMap Entry.fpEvent).reverse

/-! ## The machine -/

/-- The core with FCSR and its history. -/
structure FpState where
  core : State
  fcsr : BitVec 32
  log : List FpEvent

/-- A `CTC1` is executed in this cycle. -/
def writesFcsr (s : State) (i : Input) : Bool :=
  (executing s i).any fun e => decide (e.uop.op = .ctc1)

/-- `n_fcsr`. -/
def nextFcsr (p : Params) (s : State) (i : Input) (v : BitVec 32) : BitVec 32 :=
  if writesFcsr s i then ctc1Value i.startA
  else if (comb p s i).fcsrWe then
    fcsrMerge v (comb p s i).fcsrCause6 (comb p s i).fcsrFlags5
  else v

/-- One cycle. -/
def fpNext (p : Params) (s : FpState) (i : Input) : FpState where
  core := next p s.core i
  fcsr := nextFcsr p s.core i s.fcsr
  log := fpEvents s.core (comb p s.core i) ++ s.log

def fpReset : FpState := ⟨reset, 0, []⟩

/-- `DRAIN` is about to retire an arithmetic operation that does not trap. -/
def arithSlot (s : State) : Bool :=
  decide (s.regs.state = .drain) && !s.regs.dsDone &&
    (!s.regs.hasNullifyingDelaySlot || s.regs.takeBr) &&
    s.rob[0]?.any fun e => e.fpSetFlags && !e.faulted

/-- A `CTC1` is about to be allocated as the serializing slot of a faulted branch. -/
def ctc1Slot (s : State) : Bool :=
  decide (s.regs.state = .serializeInFaultedDelaySlot) &&
    s.dq[0]?.any fun u => decide (u.op = .ctc1)

/-- The steps that keep the law. -/
structure FlagsKept (s : State) : Prop where
  slot : arithSlot s = false
  serial : ctc1Slot s = false

instance (s : State) : Decidable (FlagsKept s) :=
  decidable_of_iff (arithSlot s = false ∧ ctc1Slot s = false)
    ⟨fun h => ⟨h.1, h.2⟩, fun h => ⟨h.slot, h.serial⟩⟩

instance (v : BitVec 32) (log : List FpEvent) : Decidable (Lawful v log) :=
  inferInstanceAs (Decidable (_ ∧ _))

/-! ## The steps -/

def isCtc1 (o : Op) : Bool := decide (o = .ctc1)

/-- The value after the FCSR outputs of a cycle. -/
def Comb.fcsr (c : Comb) (v : BitVec 32) : BitVec 32 :=
  if c.fcsrWe then fcsrMerge v c.fcsrCause6 c.fcsrFlags5 else v

theorem lawful_arith {v : BitVec 32} {log : List FpEvent} {f : BitVec 6} {g : BitVec 5}
    (hg : fcsrFlags v ||| g = flagsLaw log ||| f.truncate 5) :
    Lawful (fcsrMerge v f g) (.arith f :: log) := by
  constructor
  · rw [fcsrFlags_merge, hg]
    rfl
  · rw [fcsrCause_merge]
    rfl

theorem Lawful.trap {v : BitVec 32} {log : List FpEvent} (h : Lawful v log) (f : BitVec 6) :
    Lawful (fcsrMerge v f 0) (.trap f :: log) := by
  constructor
  · rw [fcsrFlags_merge, h.1]
    exact BitVec.or_zero
  · rw [fcsrCause_merge]
    rfl

theorem lawful_ctc1 (v : BitVec 32) (log : List FpEvent) : Lawful v (.ctc1 v :: log) :=
  ⟨rfl, rfl⟩

/-- What the first of the retiring entries adds to the history. -/
def Entry.arithLog (e : Entry) (log : List FpEvent) : List FpEvent :=
  if e.fpSetFlags then .arith e.fpFlags :: log else log

/-- The first of the entries that retire in `ACTIVE`. -/
theorem accumulate_one {v : BitVec 32} {log : List FpEvent} (hv : Lawful v log) (e : Entry)
    {c : Comb} (hwe : c.fcsrWe = false) (hfl : c.fcsrFlags5 = 0) (hret : c.retire = true) :
    Lawful ((accumulate e [] c).fcsr v) (e.arithLog log) ∧
      fcsrFlags v ||| (accumulate e [] c).fcsrFlags5 = flagsLaw (e.arithLog log) := by
  cases hfp : e.fpSetFlags with
  | false =>
    have ha : accumulate e [] c = c := by simp [accumulate, hfp]
    simp only [ha, Comb.fcsr, hwe, hfl, Entry.arithLog, hfp, if_neg Bool.false_ne_true]
    exact ⟨hv, BitVec.or_zero.trans hv.1⟩
  | true =>
    have ha : accumulate e [] c =
        { c with fcsrWe := true, fcsrCause6 := e.fpFlags, fcsrFlags5 := e.fpFlags.truncate 5 } := by
      simp [accumulate, hfp, hret]
    simp only [ha, Comb.fcsr, Entry.arithLog, hfp, if_true]
    have hg : fcsrFlags v ||| e.fpFlags.truncate 5 = flagsLaw log ||| e.fpFlags.truncate 5 := by
      rw [hv.1]
    exact ⟨lawful_arith hg, hg⟩

/-- The second entry merges on top of the first. -/
theorem accumulate_cons (e f : Entry) (fs : List Entry) (c : Comb) :
    accumulate e (f :: fs) c =
      if c.retireTwo && f.fpSetFlags then
        { accumulate e [] c with
          fcsrWe := true
          fcsrCause6 := f.fpFlags
          fcsrFlags5 := (accumulate e [] c).fcsrFlags5 ||| f.fpFlags.truncate 5 }
      else accumulate e [] c := by
  have ht : (accumulate e [] c).retireTwo = c.retireTwo := accumulate_retireTwo e [] c
  rw [← ht]
  rfl

/-- The entries that retire in `ACTIVE`. -/
theorem accumulate_lawful {v : BitVec 32} {log : List FpEvent} (hv : Lawful v log) (e : Entry)
    (es : List Entry) {c : Comb} (hwe : c.fcsrWe = false) (hfl : c.fcsrFlags5 = 0)
    (hret : c.retire = true)
    (hf : c.retireTwo = true → ∀ f fs, es = f :: fs → f.uop.op ≠ .ctc1) :
    Lawful ((accumulate e es c).fcsr v)
      (((es.take (if c.retireTwo then 1 else 0)).filterMap Entry.fpEvent).reverse ++
        e.arithLog log) := by
  obtain ⟨h1, hg⟩ := accumulate_one hv e hwe hfl hret
  cases es with
  | nil => simpa using h1
  | cons f fs =>
    rw [accumulate_cons]
    cases htwo : c.retireTwo with
    | false => simpa using h1
    | true =>
      have hop := hf htwo f fs rfl
      cases hfp : f.fpSetFlags with
      | false => simpa [Entry.fpEvent, hop, hfp] using h1
      | true =>
        have h2 : Lawful (fcsrMerge v f.fpFlags
            ((accumulate e [] c).fcsrFlags5 ||| f.fpFlags.truncate 5))
            (.arith f.fpFlags :: e.arithLog log) := by
          apply lawful_arith
          rw [← BitVec.or_assoc, hg]
        simpa [Entry.fpEvent, hop, hfp, Comb.fcsr] using h2

/-- The oldest entry is a `CTC1` that was executed. -/
def PendingCtc1 (s : State) (e : Entry) : Prop :=
  s.rob[0]? = some e ∧ e.uop.op = .ctc1 ∧ e.issued = true

/-- The invariant: the register agrees with the history, except between the execution and
the retirement of a `CTC1`, when it holds the written value. -/
structure FpInv (s : FpState) : Prop where
  sane : Sane s.core
  alone : Alone isCtc1 s.core
  pending : ∀ e, PendingCtc1 s.core e → s.fcsr = ctc1Value e.srcA
  law : (∀ e, ¬ PendingCtc1 s.core e) → Lawful s.fcsr s.log

theorem ctc1_serializing (u : Uop) (h : isCtc1 u.op = true) : u.serializingOp = true :=
  u.ok.ctc1 (by simpa [isCtc1] using h)

theorem ctc1_serializes {e : Entry} (h : e.uop.op = .ctc1) : e.uop.op.serializes = true := by
  simp [h, Op.serializes]

theorem ctc1_noFlags {e : Entry} (hok : e.Ok) (h : e.uop.op = .ctc1) : e.fpSetFlags = false := by
  have hfp := (e.uop.ok.plain (ctc1_serializes h)).2.2.1
  cases hs : e.fpSetFlags with
  | false => rfl
  | true => simp [hok.flags hs] at hfp

section Step

variable {p : Params} {s : FpState} {i : Input}

/-- A `CTC1` is executed while its state waits for it. -/
theorem writesFcsr_spec (h : FpInv s) (hw : writesFcsr s.core i = true) :
    ∃ e, s.core.rob = [e] ∧ e.uop.op = .ctc1 ∧ i.start = some 0 ∧
      mayStart s.core 0 e = true ∧ s.core.regs.state = .waitForSerializeAndRestart := by
  obtain ⟨e, he, hop⟩ := (Option.any_eq_true _ _).mp hw
  obtain ⟨k, hk, hg, hm⟩ := executing_eq_some.mp he
  have hop : e.uop.op = .ctc1 := by simpa using hop
  obtain ⟨rfl, halone⟩ := h.alone k e hg (by simp [isCtc1, hop])
  have hst : s.core.regs.state = .waitForSerializeAndRestart := by
    obtain hst | ⟨-, hdone⟩ := halone
    · exact hst
    · -- a complete operation is not executed
      simp only [Entry.done, Bool.and_eq_true] at hdone
      simp [mayStart, hdone.2] at hm
  have hfits := h.sane.fits
  simp only [Fits, hst] at hfits
  obtain ⟨f, hrob, -⟩ := hfits
  simp only [hrob, List.getElem?_cons_zero, Option.some.injEq] at hg
  subst hg
  exact ⟨f, hrob, hop, hk, hm, hst⟩

/-- A `CTC1` at the head after a cycle that executes none was there before. -/
theorem pending_of_next (h : FpInv s) (hw : writesFcsr s.core i = false) {e' : Entry}
    (hp : PendingCtc1 (next p s.core i) e') :
    ∃ e, PendingCtc1 s.core e ∧ e'.srcA = e.srcA ∧ leaving (comb p s.core i) = 0 ∧
      (comb p s.core i).clrRob = false := by
  obtain ⟨hg, hop, hiss⟩ := hp
  simp only [next, nextRob] at hg
  split at hg
  · cases hg
  next hclr =>
    rw [List.getElem?_append] at hg
    split at hg
    next =>
      obtain ⟨e, he, rfl⟩ := kept_getElem? hg
      rw [Entry.next_uop] at hop
      obtain ⟨h0, -⟩ := h.alone _ e he (by simp [isCtc1, hop])
      have hl : leaving (comb p s.core i) = 0 := by omega
      rw [hl] at he hiss ⊢
      have hns : ¬ (i.start = some 0 ∧ mayStart s.core 0 e = true) := by
        rintro ⟨hs, hm⟩
        have he := executing_eq_some.mpr ⟨0, hs, he, hm⟩
        simp [writesFcsr, he, hop] at hw
      have hkeep := Entry.next_of_not_started hns
      exact ⟨e, ⟨he, hop, hkeep.1.symm.trans hiss⟩, hkeep.2, rfl, by simpa using hclr⟩
    next =>
      obtain ⟨u, d, t, rfl, -, -⟩ := mem_newEntries (List.mem_of_getElem? hg)
      cases hiss

/-- An executed `CTC1` that does not leave stays pending. -/
theorem pending_next {e : Entry} (hp : PendingCtc1 s.core e)
    (hl : leaving (comb p s.core i) = 0) (hclr : (comb p s.core i).clrRob = false) :
    ∃ e', PendingCtc1 (next p s.core i) e' := by
  obtain ⟨hg, hop, hiss⟩ := hp
  refine ⟨e.next s.core i 0, ?_, by simpa using hop, (Entry.next_of_issued hiss).1⟩
  have hlen : 0 < s.core.rob.length := (List.getElem?_eq_some_iff.mp hg).1
  simp only [next, nextRob, hclr, hl, if_neg Bool.false_ne_true, List.drop_zero]
  rw [List.getElem?_append_left (by simpa using hlen), progress_getElem?, hg]
  rfl

theorem fpNext_fcsr (hw : writesFcsr s.core i = false) :
    (fpNext p s i).fcsr = (comb p s.core i).fcsr s.fcsr := by
  simp [fpNext, nextFcsr, hw, Comb.fcsr]

/-- A cycle that neither retires nor traps records nothing. -/
theorem fpEvents_nil {s : State} {c : Comb} (ht : s.regs.state ≠ .archFault)
    (hr : c.retire = false) : fpEvents s c = [] := by
  have htrap : trapping s = [] := by
    unfold trapping
    split
    next h _ => exact (ht h).elim
    next => rfl
  simp [fpEvents, htrap, retiring, hr]

/-- The history of a cycle of `ACTIVE` in which the head retires. -/
theorem fpEvents_retire {s : State} {c : Comb} {e : Entry} {es : List Entry}
    (hs : s.regs.state = .active) (hrob : s.rob = e :: es) (hr : c.retire = true) :
    fpEvents s c =
      ((es.take (if c.retireTwo then 1 else 0)).filterMap Entry.fpEvent).reverse ++
        e.fpEvent.toList := by
  have htrap : trapping s = [] := by simp [trapping, hs]
  have htake : s.rob.take (if c.retireTwo then 2 else 1) =
      e :: es.take (if c.retireTwo then 1 else 0) := by
    rw [hrob]
    split <;> rfl
  rw [fpEvents, htrap, retiring, if_pos hr, htake, List.filterMap_cons]
  cases e.fpEvent <;> simp

/-- While a `CTC1` is pending and stays, FCSR is not written. -/
theorem pending_quiet (h : FpInv s) {e : Entry} (hp : PendingCtc1 s.core e)
    (hl : leaving (comb p s.core i) = 0) : (comb p s.core i).fcsrWe = false := by
  obtain ⟨hg, hop, -⟩ := hp
  obtain ⟨es, hrob⟩ := rob_head hg
  obtain ⟨-, hst | ⟨hst | hst, -⟩⟩ := h.alone 0 e hg (by simp [isCtc1, hop])
  · exact (comb_still h.sane.rob h.sane.fits (by simp [hst, FsmState.still])).fcsrWe
  · have hne : s.core.rob ≠ [] := by simp [hrob]
    obtain ⟨-, hc⟩ | hc := serial_head_active (p := p) (i := i) h.sane.rob hst hrob
      (ctc1_serializes hop)
    · simp only [hc, leaving, finish, accumulate_retire, Bool.true_or, if_true] at hl
      split at hl <;> cases hl
    · rw [hc]
      exact (allocate_state hne (tick s.core i)).2.2.2.1
  · exact (comb_still h.sane.rob h.sane.fits (by simp [hst, FsmState.still])).fcsrWe

/-- A pending `CTC1` retires, perhaps with an arithmetic operation. -/
theorem law_of_pending (h : FpInv s) {e : Entry} (hp : PendingCtc1 s.core e)
    (hl : leaving (comb p s.core i) ≠ 0) :
    Lawful ((comb p s.core i).fcsr s.fcsr) (fpEvents s.core (comb p s.core i) ++ s.log) := by
  have hv := h.pending e hp
  obtain ⟨hg, hop, -⟩ := hp
  obtain ⟨es, hrob⟩ := rob_head hg
  have hnf := ctc1_noFlags (h.sane.rob e (by simp [hrob])) hop
  have hne : s.core.rob ≠ [] := by simp [hrob]
  have hst : s.core.regs.state = .active := by
    obtain ⟨-, hst⟩ := h.alone 0 e hg (by simp [isCtc1, hop])
    obtain hl | hl | hl := leaving_cases h.sane.rob h.sane.fits hl
    · exact hl
    · simp [hl] at hst
    · simp [hl] at hst
  obtain ⟨hdone, hc⟩ | hc := serial_head_active (p := p) (i := i) h.sane.rob hst hrob
    (ctc1_serializes hop)
  · obtain ⟨-, -, -, hwe, hfl, -⟩ := allocate_state (p := p) (i := i) hne (tick s.core i)
    have hf : canRetireTwo i e es = true → ∀ f fs, es = f :: fs → f.uop.op ≠ .ctc1 := by
      rintro - f fs rfl hf
      -- a second `CTC1` would have to be alone as well
      obtain ⟨h1, -⟩ := h.alone 1 f (by simp [hrob]) (by simp [isCtc1, hf])
      cases h1
    have hlaw := accumulate_lawful (lawful_ctc1 s.fcsr s.log) e es
      (c := { allocate p s.core i (tick s.core i) with
        retire := true, retireTwo := canRetireTwo i e es }) hwe hfl rfl hf
    rw [fpEvents_retire hst hrob (by simp [hc, finish])]
    have hev : e.fpEvent.toList ++ s.log = e.arithLog (.ctc1 s.fcsr :: s.log) := by
      simp [Entry.fpEvent, hop, Entry.arithLog, hnf, hv]
    rw [List.append_assoc, hev, hc]
    simpa [finish, Comb.fcsr] using hlaw
  · obtain ⟨-, hr, hb, -⟩ := allocate_state (p := p) (i := i) hne (tick s.core i)
    simp [hc, finish, leaving, hr, hb] at hl

/-- In `ACTIVE`, a head that is no pending `CTC1` is no `CTC1`. -/
theorem head_not_ctc1 (h : FpInv s) (hno : ∀ e, ¬ PendingCtc1 s.core e)
    (hs : s.core.regs.state = .active) {e : Entry} {es : List Entry}
    (hrob : s.core.rob = e :: es) : e.uop.op ≠ .ctc1 := by
  intro hop
  obtain ⟨-, hst | ⟨-, hdone⟩⟩ := h.alone 0 e (by simp [hrob]) (by simp [isCtc1, hop])
  · simp [hs] at hst
  · simp only [Entry.done, Bool.and_eq_true] at hdone
    have hiss := (h.sane.rob e (by simp [hrob])).issued (ctc1_serializes hop) hdone.2
    exact hno e ⟨by simp [hrob], hop, hiss⟩

/-- The retirements of `ACTIVE` keep the law. -/
theorem law_retire (h : FpInv s) (hno : ∀ e, ¬ PendingCtc1 s.core e)
    (hs : s.core.regs.state = .active) {e : Entry} {es : List Entry}
    (hrob : s.core.rob = e :: es) {c : Comb} (hwe : c.fcsrWe = false) (hfl : c.fcsrFlags5 = 0)
    (hr : c.retire = true) (hc : comb p s.core i = finish s.core (accumulate e es c)) :
    Lawful ((comb p s.core i).fcsr s.fcsr) (fpEvents s.core (comb p s.core i) ++ s.log) := by
  have hop := head_not_ctc1 h hno hs hrob
  have hf : c.retireTwo = true → ∀ f fs, es = f :: fs → f.uop.op ≠ .ctc1 := by
    rintro - f fs rfl hf
    obtain ⟨h1, -⟩ := h.alone 1 f (by simp [hrob]) (by simp [isCtc1, hf])
    cases h1
  have hlaw := accumulate_lawful (h.law hno) e es hwe hfl hr hf
  rw [fpEvents_retire hs hrob (by simp [hc, finish, hr])]
  have hev : e.fpEvent.toList ++ s.log = e.arithLog s.log := by
    cases hfp : e.fpSetFlags <;> simp [Entry.fpEvent, hop, Entry.arithLog, hfp]
  rw [List.append_assoc, hev, hc]
  simpa [finish, Comb.fcsr] using hlaw

/-- The slot that `DRAIN` retires records nothing under the condition. -/
theorem law_slot (h : FpInv s) (hk : FlagsKept s.core) (hs : s.core.regs.state = .drain)
    {e : Entry} {es : List Entry} (hrob : s.core.rob = e :: es)
    (hds : s.core.regs.dsDone = false) (harch : e.archFault = false)
    (hbr : s.core.regs.hasNullifyingDelaySlot = true → s.core.regs.takeBr = true) :
    e.fpEvent = none := by
  have hok := h.sane.rob e (by simp [hrob])
  have hop : e.uop.op ≠ .ctc1 := by
    intro hop
    obtain ⟨-, hst⟩ := h.alone 0 e (by simp [hrob]) (by simp [isCtc1, hop])
    simp [hs] at hst
  have hfp : e.fpSetFlags = false := by
    cases hfp : e.fpSetFlags with
    | false => rfl
    | true =>
      -- a trapping operation is not retired but faults
      have hfault : e.faulted = true := by
        have hslot := hk.slot
        cases hn : s.core.regs.hasNullifyingDelaySlot with
        | false => simpa [arithSlot, hs, hds, hrob, hfp, hn] using hslot
        | true => simpa [arithSlot, hs, hds, hrob, hfp, hbr hn] using hslot
      have hfpe := (hok.fpe hfp).trans hfault
      simp [Entry.archFault, hfault, hfpe] at harch
  simp [Entry.fpEvent, hop, hfp]

theorem trapsFp_eq {e : Entry} (hok : e.Ok) : trapsFp e = e.isFpe := by
  cases hfpe : e.isFpe with
  | false => simp [trapsFp, hfpe]
  | true =>
    have hfp := hok.flags (hok.trap hfpe)
    simp [trapsFp, hfpe, e.uop.ok.fpOp hfp, hok.fpOnly hfp]

theorem law_trap (h : FpInv s) (hlaw : Lawful s.fcsr s.log)
    (hs : s.core.regs.state = .archFault) :
    Lawful ((comb p s.core i).fcsr s.fcsr) (fpEvents s.core (comb p s.core i) ++ s.log) := by
  have hfits := h.sane.fits
  simp only [Fits, hs] at hfits
  obtain ⟨e, es, hrob, -, -⟩ := hfits
  have htr := trapsFp_eq (h.sane.rob e (by simp [hrob]))
  have hc := comb_archFault (p := p) (i := i) hs
  have hr : (comb p s.core i).retire = false := by
    simp only [hc, finish, archFault, hrob]
    split <;> rfl
  have hev : fpEvents s.core (comb p s.core i) = if e.isFpe then [.trap e.fpFlags] else [] := by
    simp [fpEvents, trapping, hs, hrob, retiring, hr]
  rw [hev]
  cases hfpe : e.isFpe with
  | false =>
    have hwe : (comb p s.core i).fcsrWe = false := by
      simp [hc, finish, archFault, hrob, htr, hfpe]
    simpa [Comb.fcsr, hwe] using hlaw
  | true =>
    have hval : (comb p s.core i).fcsr s.fcsr = fcsrMerge s.fcsr e.fpFlags 0 := by
      simp [Comb.fcsr, hc, finish, archFault, hrob, htr, hfpe, tick]
    rw [hval]
    exact hlaw.trap e.fpFlags

/-- A cycle that does not write FCSR and records nothing. -/
theorem law_still {s : FpState} {c : Comb} (hlaw : Lawful s.fcsr s.log)
    (hwe : c.fcsrWe = false) (hev : fpEvents s.core c = []) :
    Lawful (c.fcsr s.fcsr) (fpEvents s.core c ++ s.log) := by
  simpa [hev, Comb.fcsr, hwe] using hlaw

theorem law_of_settled (h : FpInv s) (hk : FlagsKept s.core)
    (hno : ∀ e, ¬ PendingCtc1 s.core e) :
    Lawful ((comb p s.core i).fcsr s.fcsr) (fpEvents s.core (comb p s.core i) ++ s.log) := by
  have hlaw := h.law hno
  have alone {w : FsmState}
      (hs : s.core.regs.state = .allocForSerialize ∧ w = .waitForSerializeAndRestart ∨
        s.core.regs.state = .serializeInFaultedDelaySlot ∧
          w = .waitForSerializeInFaultedDelaySlot) :
      Lawful ((comb p s.core i).fcsr s.fcsr) (fpEvents s.core (comb p s.core i) ++ s.log) := by
    have ht : s.core.regs.state ≠ .archFault := by
      obtain ⟨hs, -⟩ | ⟨hs, -⟩ := hs <;> simp [hs]
    obtain hc | ⟨-, hc⟩ := alone_turn (p := p) (i := i) hs
    · exact law_still hlaw (by simp [hc, finish]) (fpEvents_nil ht (by simp [hc, finish]))
    · exact law_still hlaw (by simp [hc, finish]) (fpEvents_nil ht (by simp [hc, finish]))
  obtain hs | hs | hs | hs | hs | hs | hs := s.core.regs.state.kinds
  · have ht : s.core.regs.state ≠ .archFault := by simp [hs]
    obtain ⟨c, hturn, hc⟩ := comb_active (p := p) (i := i) hs
    cases hturn with
    | detour => exact law_still hlaw (by simp [hc, finish]) (fpEvents_nil ht (by simp [hc, finish]))
    | fault e es hrob hdone hfault harch =>
      exact law_still hlaw (by simp [hc, finish, faultedHead, harch])
        (fpEvents_nil ht (by simp [hc, finish]))
    | restart e es hrob hdone hfault harch =>
      refine law_retire h hno hs hrob ?_ ?_ rfl hc
      · simp [faultedHead, harch]
      · simp [faultedHead, harch, tick]
    | retire e es hrob =>
      have hne : s.core.rob ≠ [] := by simp [hrob]
      obtain ⟨-, -, -, hwe, hfl, -⟩ := allocate_state (p := p) (i := i) hne (tick s.core i)
      refine law_retire h hno hs hrob ?_ ?_ rfl hc
      · exact hwe
      · exact hfl
    | wait =>
      obtain ⟨-, ha⟩ | ⟨-, -, ha⟩ | ⟨-, ha⟩ :=
        allocate_cases (p := p) (s := s.core) (i := i) (tick s.core i)
      all_goals
        exact law_still hlaw (by simp [hc, finish, ha])
          (fpEvents_nil ht (by simp [hc, finish, ha]))
  · have ht : s.core.regs.state ≠ .archFault := by simp [hs]
    obtain ⟨c, hturn, hc⟩ := comb_drain (p := p) (i := i) hs
    cases hturn with
    | retire e es hrob hds hdone harch hbr =>
      have hnone := law_slot h hk hs hrob hds harch hbr
      have hev : fpEvents s.core (comb p s.core i) = [] := by
        simp [fpEvents, trapping, hs, retiring, hc, finish, hrob, hnone]
      exact law_still hlaw (by simp [hc, finish]) hev
    | _ => exact law_still hlaw (by simp [hc, finish]) (fpEvents_nil ht (by simp [hc, finish]))
  · refine law_still hlaw ?_ (fpEvents_nil (by simp [hs]) ?_)
    · simp only [comb_rat hs, finish, rat]
      split <;> rfl
    · simp only [comb_rat hs, finish, rat]
      split <;> rfl
  · exact law_trap h hlaw hs
  · exact alone (.inl ⟨hs, rfl⟩)
  · exact alone (.inr ⟨hs, rfl⟩)
  · have hc := comb_still (p := p) (i := i) h.sane.rob h.sane.fits hs
    refine law_still hlaw hc.fcsrWe (fpEvents_nil ?_ hc.retire)
    intro hst
    simp [hst, FsmState.still] at hs

theorem fp_step (h : FpInv s) (hk : FlagsKept s.core) : FpInv (fpNext p s i) where
  sane := sane_next h.sane
  alone :=
    alone_next ctc1_serializing h.sane.rob h.sane.fits h.alone fun hs u us hq => by
      simpa [isCtc1, ctc1Slot, hs, hq] using hk.serial
  pending := by
    intro e' hp
    cases hw : writesFcsr s.core i with
    | true =>
      obtain ⟨e, hrob, hop, hst, hm, hs⟩ := writesFcsr_spec h hw
      have hc := comb_still (p := p) (i := i) h.sane.rob h.sane.fits (by simp [hs, FsmState.still])
      have hhead := hp.1
      simp only [fpNext, next, hc.rob, progress, hrob, List.mapIdx_cons, List.getElem?_cons_zero,
        Option.some.injEq] at hhead
      rw [← hhead, (Entry.next_start hst hm).2]
      simp [fpNext, nextFcsr, hw]
    | false =>
      obtain ⟨e, hpe, ha, hl, -⟩ := pending_of_next h hw hp
      rw [fpNext_fcsr hw, ha, Comb.fcsr, pending_quiet h hpe hl, if_neg Bool.false_ne_true]
      exact h.pending e hpe
  law := by
    intro hno
    cases hw : writesFcsr s.core i with
    | true =>
      obtain ⟨e, hrob, hop, hst, hm, hs⟩ := writesFcsr_spec h hw
      have hc := comb_still (p := p) (i := i) h.sane.rob h.sane.fits (by simp [hs, FsmState.still])
      refine (hno (e.next s.core i 0) ⟨?_, by simpa using hop, (Entry.next_start hst hm).1⟩).elim
      simp [fpNext, next, hc.rob, progress, hrob]
    | false =>
      rw [fpNext_fcsr hw]
      by_cases hp : ∃ e, PendingCtc1 s.core e
      · obtain ⟨e, hpe⟩ := hp
        refine law_of_pending h hpe ?_
        intro hl
        have hclr : (comb p s.core i).clrRob = false := by
          cases hclr : (comb p s.core i).clrRob with
          | false => rfl
          | true =>
            have hs := clrRob_cases h.sane.rob h.sane.fits hclr
            obtain ⟨-, hst⟩ := h.alone 0 e hpe.1 (by simp [isCtc1, hpe.2.1])
            simp [hs] at hst
        obtain ⟨e', hp'⟩ := pending_next hpe hl hclr
        exact hno e' hp'
      · exact law_of_settled h hk fun e he => hp ⟨e, he⟩

theorem fp_reset : FpInv fpReset where
  sane := sane_reset
  alone := alone_reset isCtc1
  pending := by
    rintro e ⟨h, -⟩
    simp [fpReset, reset] at h
  law := fun _ => ⟨rfl, rfl⟩

/-- No `CTC1` is pending right after something retired or trapped. -/
theorem settled_of_retire (h : FpInv s)
    (hev : (comb p s.core i).retire = true ∨ s.core.regs.state = .archFault) (e' : Entry) :
    ¬ PendingCtc1 (fpNext p s i).core e' := by
  intro hp
  cases hw : writesFcsr s.core i with
  | true =>
    obtain ⟨-, -, -, -, -, hs⟩ := writesFcsr_spec h hw
    have hc := comb_still (p := p) (i := i) h.sane.rob h.sane.fits (by simp [hs, FsmState.still])
    simp [hc.retire, hs] at hev
  | false =>
    obtain ⟨e, hpe, -, hl, -⟩ := pending_of_next h hw hp
    obtain hr | hs := hev
    · simp only [leaving, hr, Bool.true_or, if_true] at hl
      split at hl <;> cases hl
    · obtain ⟨-, hst⟩ := h.alone 0 e hpe.1 (by simp [isCtc1, hpe.2.1])
      simp [hs] at hst

end Step

/-- In every run whose steps retire no arithmetic operation from `DRAIN` and send no `CTC1`
through the faulted slot, FCSR agrees after each retirement and each trap with the history
of what retired and trapped. -/
theorem fcsr_accumulates (p : Params) (is : List Input) (i : Input)
    (hrun : Hw.RunOk (fpNext p) (fun s _ => FlagsKept s.core) fpReset is)
    (hstep : FlagsKept (Hw.run (fpNext p) fpReset is).core)
    (hev : (comb p (Hw.run (fpNext p) fpReset is).core i).retire = true ∨
      (Hw.run (fpNext p) fpReset is).core.regs.state = .archFault) :
    Lawful (Hw.run (fpNext p) fpReset (is ++ [i])).fcsr
      (Hw.run (fpNext p) fpReset (is ++ [i])).log := by
  have hinv : FpInv (Hw.run (fpNext p) fpReset is) :=
    hrun.invariant (fun s i hs hk => fp_step hs hk) fp_reset
  rw [Hw.run_append]
  exact (fp_step hinv hstep).law (settled_of_retire hinv hev)

/-- An addition after the boot. -/
def fpAlone : List Input :=
  boot ++
    [{ quiet with insn := some ⟨.fpArith 2 0x1000, false, false, by decide⟩ }, quiet,
     { quiet with fpDone := some (0, ⟨false, 1, 0⟩) }]

theorem fcsr_accumulates_alone :
    Hw.RunOk (fpNext machine) (fun s _ => FlagsKept s.core) fpReset fpAlone ∧
      Lawful (Hw.run (fpNext machine) fpReset (fpAlone ++ [quiet])).fcsr
        (Hw.run (fpNext machine) fpReset (fpAlone ++ [quiet])).log :=
  ⟨by decide +kernel,
    fcsr_accumulates machine fpAlone quiet (by decide +kernel) (by decide +kernel)
      (by decide +kernel)⟩

/-- A mispredicted branch with an inexact addition in its delay slot. -/
def fpSlot : List Input :=
  boot ++
    [{ quiet with
       insn := some ⟨.branch false 0x1000, true, false, Uop.branch_own⟩
       insnTwo := some ⟨.fpArith 2 0x1004, false, false, by decide⟩ },
     quiet,
     { quiet with start := some 0, fpDone := some (1, ⟨false, 1, 0⟩) },
     { quiet with intDone := some (0, IntResult.of true 0x2000 true 0) },
     quiet]

/-- The slot retires from `DRAIN` and its flag is lost. -/
theorem fcsr_loses_slot_flags :
    ¬ ∀ (p : Params) (is : List Input) (i : Input),
      (comb p (Hw.run (fpNext p) fpReset is).core i).retire = true ∨
          (Hw.run (fpNext p) fpReset is).core.regs.state = .archFault →
        Lawful (Hw.run (fpNext p) fpReset (is ++ [i])).fcsr
          (Hw.run (fpNext p) fpReset (is ++ [i])).log := by
  intro h
  have hlaw := h machine fpSlot quiet (by decide +kernel)
  revert hlaw
  decide +kernel

end Core

end R9999
