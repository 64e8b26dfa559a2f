import R9999.Exec.DividerLaw
import R9999.Issue.Ports

/-!
# The slots of the completion ports

Which operation leaves a unit in a cycle, over every run from a reset: what leaves the
floating-point unit, the conversions, the ALU and the multiplier has been issued some cycles
before (`fpu_done`, `cvt_done`, `alu_done`, `mul_done`), and what has been issued leaves in its
slot (`leaves_of_pops`, `cvt_of_pops`, `alu_of_picks`, `mul_of_picks`).

An operation of fixed latency is issued only if its slot is free, so that no two have one
(`fp_slots`, `alu_mul`); nothing starts where a product comes back (`no_clash`); and the divider
waits for a cycle in which nothing else completes (`div_alone`, `fdiv_alone`).
-/

namespace R9999

namespace Issue

open Exec (UniDivider UniIn DivUse)
open Fpu (FpuUnit FpuOp DivOp Out)

namespace Ports

variable {R H P F X : Type*} [DecidableEq H] [DecidableEq P] [DecidableEq F]
variable (m : Ports R H P F X) (ins : ℕ → PortsIn R H P F X)

/-- A floating-point operation is issued. -/
def pops (t : ℕ) : Bool := (m.run ins t).popFpUq (ins t)

/-- An integer operation is issued. -/
def picks (t : ℕ) : Bool := (m.run ins t).pickInt (ins t)

/-- The inputs of the divider. -/
def divIns (t : ℕ) : UniIn R H P := (m.run ins t).divIn (ins t)

/-! ## The units of the machine -/

section Units

theorem div_run (t : ℕ) :
    (m.run ins t).div = m.reset.div.run (m.divIns ins) t := by
  induction t with
  | zero => rfl
  | succ t ih =>
    show (m.run ins t).div.next _ = UniDivider.next _ _
    rw [ih]
    rfl

theorem fpu_run (t : ℕ) :
    (m.run ins t).fpu = m.fpu.cleared.run (fun t => (m.run ins t).fpuIn (ins t)) t := by
  induction t with
  | zero => rfl
  | succ t ih =>
    show (m.run ins t).fpu.next _ = FpuUnit.next _ _
    rw [ih]

/-- Nothing leaves the floating-point unit in the first cycles. -/
theorem fpu_early {t : ℕ} (ht : t < 4) : (m.run ins t).fpu.r0.val = false := by
  rw [fpu_run]
  match t, ht with
  | 0, _ => rfl
  | 1, _ => rfl
  | 2, _ => rfl
  | 3, _ => rfl

/-- What is in the issue stage has been issued in the cycle before. -/
theorem iss_valid {t : ℕ} (h : (m.run ins t).fpIssValid = true) :
    ∃ s, t = s + 1 ∧ m.pops ins s = true := by
  cases t with
  | zero => exact absurd h Bool.false_ne_true
  | succ s => exact ⟨s, rfl, h⟩

/-- What executes has been issued in the cycle before. -/
theorem start_int {t : ℕ} (h : (m.run ins t).startInt = true) :
    ∃ s, t = s + 1 ∧ m.picks ins s = true := by
  cases t with
  | zero => exact absurd h Bool.false_ne_true
  | succ s => exact ⟨s, rfl, h⟩

end Units

/-! ## The floating-point side -/

section Fp

variable {m ins} {s t : ℕ}

theorem wbDist_pos (k : FpKind) : 0 < k.wbDist ∧ k.wbDist ≤ 10 := by
  unfold FpKind.wbDist
  split_ifs <;> decide

/-- The slots that are taken are those of the operations issued. -/
theorem fpWb_iff (m : Ports R H P F X) (ins : ℕ → PortsIn R H P F X) (t k : ℕ) :
    (m.run ins t).fpWbBitvec.getLsbD k = true ↔
      ∃ s < t, m.pops ins s = true ∧ s + (ins s).fpUq.kind.wbDist = t + k :=
  Hw.reserved_if_iff (v := fun t => (m.run ins t).fpWbBitvec) (p := m.pops ins)
    (d := fun t => (ins t).fpUq.kind.wbDist) rfl (fun _ => rfl) (fun _ => wbDist_pos _) t k

/-- The starts that are taken are those of the second passes. -/
theorem fpSt_iff (m : Ports R H P F X) (ins : ℕ → PortsIn R H P F X) (t k : ℕ) :
    (m.run ins t).fpStBitvec.getLsbD k = true ↔
      ∃ s < t, (m.pops ins s && (ins s).fpUq.kind.isMadd) = true ∧ s + 5 = t + k :=
  Hw.reserved_if_iff (v := fun t => (m.run ins t).fpStBitvec)
    (p := fun t => m.pops ins t && (ins t).fpUq.kind.isMadd) (d := fun _ => 5)
    rfl (fun _ => rfl) (fun _ => by decide) t k

/-- What the issue of an operation has asked for. -/
theorem pops_spec (h : m.pops ins t = true) :
    (ins t).dsDone = false ∧
      (if (ins t).fpUq.kind.isDs then (m.run ins t).divReady (ins t) = true
        else (m.run ins t).fpWbBitvec.getLsbD (ins t).fpUq.kind.wbDist = false) ∧
      ((ins t).fpUq.kind.isSc = false → (ins t).fpUq.kind.isDs = false →
        (m.run ins t).fpStBitvec.getLsbD 1 = false) := by
  unfold pops popFpUq at h
  simp only [Bool.and_eq_true, Bool.not_eq_true'] at h
  obtain ⟨⟨⟨-, hd⟩, hslot⟩, hst⟩ := h
  refine ⟨hd, ?_, fun hsc hds => ?_⟩
  · cases hds : (ins t).fpUq.kind.isDs with
    | true => simpa [hds] using hslot
    | false => simpa [hds] using hslot
  · simpa [hsc, hds] using hst

/-- **Two operations of fixed latency have two slots.** -/
theorem fp_slots (hs : m.pops ins s = true) (ht : m.pops ins t = true)
    (hds : (ins s).fpUq.kind.isDs = false) (hdt : (ins t).fpUq.kind.isDs = false)
    (h : s + (ins s).fpUq.kind.wbDist = t + (ins t).fpUq.kind.wbDist) : s = t := by
  have key {a b : ℕ} (ha : m.pops ins a = true) (hb : m.pops ins b = true)
      (hdb : (ins b).fpUq.kind.isDs = false)
      (heq : a + (ins a).fpUq.kind.wbDist = b + (ins b).fpUq.kind.wbDist) : ¬ a < b := by
    intro hlt
    have hfree := (pops_spec hb).2.1
    rw [hdb, if_neg Bool.false_ne_true] at hfree
    have hset := (fpWb_iff m ins b _).2 ⟨a, hlt, ha, heq⟩
    rw [hfree] at hset
    exact Bool.false_ne_true hset
  have h1 := key hs ht hdt h
  have h2 := key ht hs hds h.symm
  omega

/-- A start of the floating-point unit is that of an operation issued. -/
theorem fpuStart_spec (h : (m.run ins t).fpuStart = true) :
    ∃ s, t = s + 1 ∧ m.pops ins s = true ∧ ∃ op, (ins s).fpUq.kind = .unit op := by
  unfold fpuStart at h
  simp only [Bool.and_eq_true, Bool.not_eq_true'] at h
  obtain ⟨s, rfl, hp⟩ := iss_valid m ins h.1.1
  have hk : (m.run ins (s + 1)).fpIssUop = (ins s).fpUq := rfl
  rw [hk] at h
  refine ⟨s, rfl, hp, ?_⟩
  cases hkind : (ins s).fpUq.kind with
  | unit op => exact ⟨op, rfl⟩
  | sc op => simp [hkind, FpKind.isSc] at h
  | ds op => simp [hkind, FpKind.isDs] at h

/-- What enters the floating-point unit for an operation issued in the cycle before. -/
theorem fpuIn_of_pops {op : FpuOp} (hp : m.pops ins s = true) (hk : (ins s).fpUq.kind = .unit op) :
    (m.run ins (s + 1)).fpuIn (ins (s + 1)) =
      (ins s).fpUq.fpuIn true ((m.run ins s).fcrPrf (ins s).fpUq.hiloSrc) (ins (s + 1)).rm := by
  have hv : (m.run ins (s + 1)).fpIssValid = true := hp
  have hu : (m.run ins (s + 1)).fpIssUop = (ins s).fpUq := rfl
  have hst : (m.run ins (s + 1)).fpuStart = true := by
    simp [fpuStart, hv, hu, hk, FpKind.isSc, FpKind.isDs]
  rw [fpuIn, hst, hu]
  rfl

omit [DecidableEq H] [DecidableEq P] [DecidableEq F] in
theorem fpuIn_op {op : FpuOp} {fcr : BitVec 8} {b : Bool} {rm : Hw.RoundMode} {u : FpUop R P F}
    (hk : u.kind = .unit op) : (u.fpuIn b fcr rm).op = op := by
  simp [FpUop.fpuIn, hk]

/-- A product comes back five cycles after a multiply-add has been issued. -/
theorem restart_spec (h : (m.run ins t).fpu.restart = true) :
    ∃ s, s + 5 = t ∧ m.pops ins s = true ∧ (ins s).fpUq.kind.isMadd = true := by
  rcases Nat.lt_or_ge t 4 with hlt | hge
  · rw [FpuUnit.restart, fpu_early m ins hlt] at h
    exact absurd h Bool.false_ne_true
  · obtain ⟨k, rfl⟩ := Nat.exists_eq_add_of_le' hge
    rw [fpu_run, FpuUnit.restart_run, Bool.and_eq_true, Bool.and_eq_true] at h
    obtain ⟨⟨hst, hmadd⟩, -⟩ := h
    have hst' : (m.run ins k).fpuStart = true := hst
    obtain ⟨s, rfl, hp, op, hk⟩ := fpuStart_spec hst'
    refine ⟨s, by omega, hp, ?_⟩
    rw [fpuIn_of_pops hp hk, fpuIn_op hk] at hmadd
    rw [hk]
    exact hmadd

/-- **No operation starts where a product comes back.** -/
theorem no_clash (m : Ports R H P F X) (ins : ℕ → PortsIn R H P F X) (t : ℕ) :
    ((m.run ins t).fpuStart && (m.run ins t).fpu.restart) = false := by
  by_contra h
  rw [Bool.not_eq_false, Bool.and_eq_true] at h
  obtain ⟨a, rfl, ha, op, hk⟩ := fpuStart_spec h.1
  obtain ⟨b, hb, hpop, hmadd⟩ := restart_spec h.2
  have hfree := (pops_spec ha).2.2 (by rw [hk]; rfl) (by rw [hk]; rfl)
  have hset := (fpSt_iff m ins a 1).2 ⟨b, by omega, by rw [hpop, hmadd]; rfl, by omega⟩
  rw [hfree] at hset
  exact Bool.false_ne_true hset

/-- What an operation of fixed latency computes, with the condition codes of its source as it is
issued. -/
def fpResult (m : Ports R H P F X) (ins : ℕ → PortsIn R H P F X) (s : ℕ) : Out :=
  let fcr := (m.run ins s).fcrPrf (ins s).fpUq.hiloSrc
  let i := (ins s).fpUq.fpuIn true fcr (ins (s + 1)).rm
  match (ins s).fpUq.kind with
  | .unit op => if op.isMadd then FpuUnit.maddResult i (ins (s + 5)).rm else FpuUnit.result i
  | .sc op => op.out (ins s).fpUq fcr (ins (s + 1)).rm
  | .ds _ => FpuUnit.result i

/-- What leaves the floating-point unit. -/
structure Leaves (u : FpuUnit R P F) (o : FpUop R P F) (isCmp : Bool) (out : Out) : Prop where
  val : u.val = !isCmp
  cmpVal : u.cmpVal = isCmp
  out : u.out = out
  rob : u.r0.rob = o.robPtr
  ptr : u.r0.ptr = o.dst
  fcr : isCmp = true → u.r0.fcr = o.hiloDst

/-- **An operation leaves the floating-point unit in its slot.** -/
theorem leaves_of_pops {op : FpuOp} (hp : m.pops ins s = true) (hk : (ins s).fpUq.kind = .unit op) :
    Leaves (m.run ins (s + (ins s).fpUq.kind.wbDist)).fpu (ins s).fpUq op.isCmp
      (fpResult m ins s) := by
  have hin := fpuIn_of_pops hp hk
  have hop : ((m.run ins (s + 1)).fpuIn (ins (s + 1))).op = op := by rw [hin, fpuIn_op hk]
  have hst : ((m.run ins (s + 1)).fpuIn (ins (s + 1))).start = true := by rw [hin]; rfl
  have hr : (m.fpu.cleared.run (fun t => (m.run ins t).fpuIn (ins t)) (s + 1)).restart = false := by
    have h := no_clash m ins (s + 1)
    have hst' : (m.run ins (s + 1)).fpuStart = true := hst
    rw [hst', Bool.true_and, fpu_run] at h
    exact h
  cases hm : op.isMadd with
  | false =>
    have hd : (ins s).fpUq.kind.wbDist = 5 := by
      rw [hk]
      simp [FpKind.wbDist, FpKind.isSc, FpKind.isMadd, hm]
    obtain ⟨h1, h2, h3, h4, h5, h6⟩ := FpuUnit.out_of_start hst hr (by rw [hop, hm])
    rw [hop] at h1 h2
    have hres : fpResult m ins s = FpuUnit.result ((m.run ins (s + 1)).fpuIn (ins (s + 1))) := by
      simp only [fpResult, hk, hm, hin, Bool.false_eq_true, if_false]
    rw [hd, fpu_run, hres]
    exact ⟨h1, h2, h3, by rw [h4, hin]; rfl, by rw [h5, hin]; rfl, fun _ => by rw [h6, hin]; rfl⟩
  | true =>
    have hd : (ins s).fpUq.kind.wbDist = 9 := by
      rw [hk]
      simp [FpKind.wbDist, FpKind.isSc, FpKind.isMadd, hm]
    obtain ⟨-, -, h1, h2, h3, h4, h5⟩ := FpuUnit.out_of_madd hst hr (by rw [hop, hm])
    have hc : op.isCmp = false := by cases op <;> simp [FpuOp.isMadd] at hm <;> rfl
    have hres : fpResult m ins s =
        FpuUnit.maddResult ((m.run ins (s + 1)).fpuIn (ins (s + 1))) (ins (s + 5)).rm := by
      simp only [fpResult, hk, hm, hin, if_true]
    rw [hd, fpu_run, hres, hc]
    exact ⟨h1, h2, h3, by rw [h4, hin]; rfl, by rw [h5, hin]; rfl, fun h => absurd h (by simp)⟩

/-- **What leaves the floating-point unit has been issued.** -/
theorem fpu_done (h : ((m.run ins t).fpu.val || (m.run ins t).fpu.cmpVal) = true) :
    ∃ s op, m.pops ins s = true ∧ (ins s).fpUq.kind = .unit op ∧
      s + (ins s).fpUq.kind.wbDist = t := by
  rcases Nat.lt_or_ge t 4 with hlt | hge
  · have h0 := fpu_early m ins hlt
    unfold FpuUnit.val FpuUnit.cmpVal at h
    rw [h0] at h
    cases hop : (m.run ins t).fpu.r0.op <;> simp [hop] at h
  · obtain ⟨k, rfl⟩ := Nat.exists_eq_add_of_le' hge
    rw [fpu_run] at h
    rcases FpuUnit.of_valid h with ⟨hr, -⟩ | ⟨-, hst, hm⟩
    · rw [← fpu_run] at hr
      obtain ⟨s, rfl, hp, hmadd⟩ := restart_spec hr
      cases hk : (ins s).fpUq.kind with
      | unit op =>
        rw [hk] at hmadd
        have hmadd' : op.isMadd = true := hmadd
        refine ⟨s, op, hp, hk, ?_⟩
        simp [FpKind.wbDist, FpKind.isSc, FpKind.isMadd, hmadd', hk]
      | sc op => simp [hk, FpKind.isMadd] at hmadd
      | ds op => simp [hk, FpKind.isMadd] at hmadd
    · have hst' : (m.run ins k).fpuStart = true := hst
      obtain ⟨s, rfl, hp, op, hk⟩ := fpuStart_spec hst'
      rw [fpuIn_of_pops hp hk, fpuIn_op hk] at hm
      refine ⟨s, op, hp, hk, ?_⟩
      rw [hk]
      simp [FpKind.wbDist, FpKind.isSc, FpKind.isMadd, hm]

/-- A conversion that completes has been issued two cycles before. -/
theorem cvt_done (h : (m.run ins t).cvtValid = true) :
    ∃ s op, m.pops ins s = true ∧ (ins s).fpUq.kind = .sc op ∧
      s + (ins s).fpUq.kind.wbDist = t := by
  cases t with
  | zero => exact absurd h Bool.false_ne_true
  | succ k =>
    have h' : ((m.run ins k).fpIssValid && (m.run ins k).fpIssUop.kind.isSc) = true := h
    rw [Bool.and_eq_true] at h'
    obtain ⟨s, rfl, hp⟩ := iss_valid m ins h'.1
    have hsc : (ins s).fpUq.kind.isSc = true := h'.2
    cases hk : (ins s).fpUq.kind with
    | sc op => exact ⟨s, op, hp, hk, by rw [hk]; rfl⟩
    | unit op => simp [hk, FpKind.isSc] at hsc
    | ds op => simp [hk, FpKind.isSc] at hsc

/-- A conversion completes in its slot. -/
theorem next_cvtOut {i : PortsIn R H P F X} {op : ScOp} (hk : m.fpIssUop.kind = .sc op) :
    (m.next i).cvtOut = op.out m.fpIssUop m.fpIssFcr i.rm := by
  simp only [next, hk]

theorem cvt_of_pops {op : ScOp} (hp : m.pops ins s = true) (hk : (ins s).fpUq.kind = .sc op) :
    (m.run ins (s + (ins s).fpUq.kind.wbDist)).cvtValid = true ∧
      (m.run ins (s + (ins s).fpUq.kind.wbDist)).cvtRob = (ins s).fpUq.robPtr ∧
      (m.run ins (s + (ins s).fpUq.kind.wbDist)).cvtDst = (ins s).fpUq.dst ∧
      (m.run ins (s + (ins s).fpUq.kind.wbDist)).cvtOut = fpResult m ins s := by
  have hd : (ins s).fpUq.kind.wbDist = 2 := by rw [hk]; rfl
  have hv : (m.run ins (s + 1)).fpIssValid = true := hp
  have hu : (m.run ins (s + 1)).fpIssUop = (ins s).fpUq := rfl
  rw [hd]
  refine ⟨?_, rfl, rfl, ?_⟩
  · show ((m.run ins (s + 1)).fpIssValid && (m.run ins (s + 1)).fpIssUop.kind.isSc) = true
    rw [hv, hu, hk]
    rfl
  · rw [fpResult, hk]
    exact next_cvtOut (m := m.run ins (s + 1)) hk

end Fp

/-! ## The integer side -/

section Int

variable {m ins} {s t : ℕ}

/-- What the issue of an integer operation has asked for. -/
theorem picks_spec (h : m.picks ins t = true) :
    (ins t).dsDone = false ∧
      ((ins t).intPick.kind.isDiv = true →
        (m.run ins t).divReady (ins t) = true ∧ (m.run ins t).fdivPop (ins t) = false) ∧
      ((ins t).intPick.kind.isAlu = true → (m.run ins t).wbBitvec.getLsbD 1 = false) := by
  unfold picks pickInt intSlot at h
  simp only [Bool.and_eq_true, Bool.not_eq_true'] at h
  obtain ⟨⟨-, hslot⟩, hd⟩ := h
  refine ⟨hd, fun hdiv => ?_, fun halu => ?_⟩
  · simpa [hdiv] using hslot
  · cases hk : (ins t).intPick.kind <;> simp [hk, IntKind.isAlu] at halu
    simpa [hk, IntKind.isDiv, IntKind.isMult] using hslot

/-- What the ALU completes has been issued in the cycle before. -/
theorem alu_done (h : (m.run ins t).aluComplete = true) :
    ∃ s, t = s + 1 ∧ m.picks ins s = true ∧ (ins s).intPick.kind.isAlu = true := by
  unfold aluComplete at h
  rw [Bool.and_eq_true] at h
  obtain ⟨s, rfl, hp⟩ := start_int m ins h.1
  exact ⟨s, rfl, hp, h.2⟩

theorem startMul_spec (h : (m.run ins t).startMul (ins t) = true) :
    ∃ s, t = s + 1 ∧ m.picks ins s = true ∧ (ins s).intPick.kind.isMult = true ∧
      (ins (s + 1)).dsDone = false := by
  unfold startMul at h
  rw [Bool.and_eq_true, Bool.and_eq_true, Bool.not_eq_true'] at h
  obtain ⟨s, rfl, hp⟩ := start_int m ins h.1.1
  exact ⟨s, rfl, hp, h.1.2, h.2⟩

/-- What leaves the multiplier has been issued five cycles before, and was not flushed as it
started. -/
theorem mul_done (h : (m.run ins t).mulComplete = true) :
    ∃ s, s + 5 = t ∧ m.picks ins s = true ∧ (ins s).intPick.kind.isMult = true ∧
      (ins (s + 1)).dsDone = false := by
  match t, h with
  | 0, h | 1, h | 2, h | 3, h => exact absurd h Bool.false_ne_true
  | k + 4, h =>
    have hst : (m.run ins k).startMul (ins k) = true := h
    obtain ⟨s, rfl, hs⟩ := startMul_spec hst
    exact ⟨s, rfl, hs⟩

/-- The slots that are taken are those of the multiplies and divides that have started. -/
theorem wb_iff (m : Ports R H P F X) (ins : ℕ → PortsIn R H P F X) (t k : ℕ) :
    (m.run ins t).wbBitvec.getLsbD k = true ↔
      ∃ s < t, ∃ d, (if (m.run ins s).startDiv (ins s) then some 67
        else if (m.run ins s).startMul (ins s) then some 4 else none) = some d ∧ s + d = t + k := by
  refine Hw.reserved_iff (v := fun t => (m.run ins t).wbBitvec) rfl (fun _ => rfl)
    (fun t d hd => ?_) t k
  split at hd
  · obtain rfl := Option.some.inj hd
    decide
  · split at hd
    · obtain rfl := Option.some.inj hd
      decide
    · exact absurd hd (by simp)

/-- What leaves the multiplier holds its slot. -/
theorem mul_slot (h : (m.run ins (t + 5)).mulComplete = true) {k j : ℕ} (hj : t + 1 < j)
    (hk : t + 5 = j + k) : (m.run ins j).wbBitvec.getLsbD k = true := by
  have hst : (m.run ins (t + 1)).startMul (ins (t + 1)) = true := h
  have hdiv : (m.run ins (t + 1)).startDiv (ins (t + 1)) = false := by
    unfold startMul at hst
    unfold startDiv
    cases hkind : (m.run ins (t + 1)).intUop.kind <;> simp [hkind, IntKind.isMult] at hst
    simp [IntKind.isDiv]
  refine (wb_iff m ins j k).2 ⟨t + 1, hj, 4, ?_, by omega⟩
  rw [hdiv, hst]
  rfl

/-- **The ALU and the multiplier complete in different cycles.** -/
theorem alu_mul (m : Ports R H P F X) (ins : ℕ → PortsIn R H P F X) (t : ℕ) :
    ((m.run ins t).aluComplete && (m.run ins t).mulComplete) = false := by
  by_contra h
  rw [Bool.not_eq_false, Bool.and_eq_true] at h
  obtain ⟨a, rfl, ha, hk⟩ := alu_done h.1
  obtain ⟨b, hb, -⟩ := mul_done h.2
  rw [← hb] at h
  have hset := mul_slot h.2 (k := 1) (j := a) (by omega) hb
  rw [(picks_spec ha).2.2 hk] at hset
  exact Bool.false_ne_true hset

omit [DecidableEq H] [DecidableEq P] [DecidableEq F] in
/-- The divider completes where nothing executes and nothing leaves the multiplier. -/
theorem div_alone {c : Ports R H P F X} {i : PortsIn R H P F X} (h : c.divComplete i = true) :
    c.mulComplete = false ∧ c.startInt = false := by
  unfold divComplete UniDivider.complete at h
  rw [Bool.and_eq_true, Bool.not_eq_true'] at h
  have hslot : (c.mulComplete || c.startInt) = false := h.2
  rwa [Bool.or_eq_false_iff] at hslot

omit [DecidableEq H] [DecidableEq P] [DecidableEq F] in
theorem fdiv_alone {c : Ports R H P F X} {i : PortsIn R H P F X} (h : c.fdivComplete i = true) :
    c.fpu.val = false ∧ c.fpu.cmpVal = false ∧ c.cvtValid = false := by
  unfold fdivComplete UniDivider.fpComplete at h
  rw [Bool.and_eq_true, Bool.not_eq_true'] at h
  have hslot : (c.fpu.val || c.fpu.cmpVal || c.cvtValid) = false := h.2
  rwa [Bool.or_eq_false_iff, Bool.or_eq_false_iff, and_assoc] at hslot

/-- An ALU operation completes. -/
theorem alu_of_picks (hp : m.picks ins s = true) (hk : (ins s).intPick.kind.isAlu = true) :
    (m.run ins (s + 1)).aluComplete = true := by
  have hst : (m.run ins (s + 1)).startInt = true := hp
  have hu : (m.run ins (s + 1)).intUop.kind.isAlu = true := hk
  rw [aluComplete, hst, hu]
  rfl

/-- A multiply that is not flushed as it starts leaves the multiplier. -/
theorem mul_of_picks (hp : m.picks ins s = true) (hk : (ins s).intPick.kind.isMult = true)
    (hd : (ins (s + 1)).dsDone = false) : (m.run ins (s + 5)).mulComplete = true := by
  have hst : (m.run ins (s + 1)).startInt = true := hp
  have hu : (m.run ins (s + 1)).intUop.kind.isMult = true := hk
  show (m.run ins (s + 1)).startMul (ins (s + 1)) = true
  rw [startMul, hst, hu, hd]
  rfl

end Int

end Ports

end Issue

end R9999
