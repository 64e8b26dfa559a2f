import R9999.Issue.Slots

/-!
# The completion ports are never shared

`Ends1 s t`: what has been issued in cycle `s` on the integer side completes in cycle `t`; and
`Ends2`, on the floating-point side.  Over every run from a reset, whatever is issued and
flushed: a completion is that of one operation, which completes in no other cycle, with its own
pointers and its own result (`ports_law`).

A multiply or an integer divide that is flushed in the cycle in which it starts is not started,
and does not complete (`not_ends1`); and a divide waits as long as its port is taken
(`starved`).
-/

namespace R9999

namespace Issue

open Exec (UniDivider UniIn DivUse Pulse)
open Fpu (FpuUnit FpuOp DivOp DivSpec Out)

/-- The operation is a compare. -/
def FpKind.isCmp : FpKind → Bool
  | unit op => op.isCmp
  | _ => false

namespace Ports

variable {R H P F X : Type*} [DecidableEq H] [DecidableEq P] [DecidableEq F]
variable (m : Ports R H P F X) (ins : ℕ → PortsIn R H P F X)

/-- What the divider takes. -/
def divTakes (t : ℕ) : Option (DivUse R H P) := (m.run ins t).div.accepted (m.divIns ins t)

/-- The pulse of the divider. -/
def divPulse (t : ℕ) : Option (Pulse R H P) := (m.run ins t).div.pulse (m.divIns ins t)

/-- The divider takes an operation in the cycle after `s`, and does not pulse until `t`. -/
def InDivider (op : DivUse R H P) (s t : ℕ) : Prop :=
  m.divTakes ins (s + 1) = some op ∧ s + 1 < t ∧
    ∀ k, s + 1 ≤ k → k < t → m.divPulse ins k = none

/-- What has been issued on the integer side in `s` completes in `t`. -/
def Ends1 (s t : ℕ) : Prop :=
  m.picks ins s = true ∧
    match (ins s).intPick.kind with
    | .alu .. => t = s + 1 ∧ (m.run ins t).aluComplete = true
    | .mult .. => t = s + 5 ∧ (m.run ins t).mulComplete = true
    | .div .. =>
      m.InDivider ins (.int (m.run ins (s + 1)).divReq) s t ∧
        (m.run ins t).divComplete (ins t) = true

/-- What has been issued on the floating-point side in `s` completes in `t`. -/
def Ends2 (s t : ℕ) : Prop :=
  m.pops ins s = true ∧
    match (ins s).fpUq.kind with
    | .unit _ =>
      t = s + (ins s).fpUq.kind.wbDist ∧
        ((m.run ins t).fpu.val || (m.run ins t).fpu.cmpVal) = true
    | .sc _ => t = s + (ins s).fpUq.kind.wbDist ∧ (m.run ins t).cvtValid = true
    | .ds op =>
      m.InDivider ins (.fp ((ins s).fpUq.fdivReq op (ins (s + 1)).rm)) s t ∧
        (m.run ins t).fdivComplete (ins t) = true

/-- What an operation puts into the HILO file, completing in `t`. -/
def hiloValue (s t : ℕ) : Option (BitVec 128) :=
  let u := (ins s).intPick
  match u.kind with
  | .alu wrHilo _ => if wrHilo then some u.hiloResult else none
  | .mult isSigned is32b => some (Exec.mulY isSigned is32b u.srcA u.srcB)
  | .div .. => some (m.run ins t).div.y

/-- What an operation on the floating-point side computes, completing in `t`. -/
def fpValue (s t : ℕ) : Out :=
  match (ins s).fpUq.kind with
  | .ds _ => (m.run ins t).div.fpOut
  | _ => m.fpResult ins s

/-! ## The divides -/

section Divides

variable {m ins} {s t : ℕ}

theorem divTakes_eq (m : Ports R H P F X) (ins : ℕ → PortsIn R H P F X) (t : ℕ) :
    m.divTakes ins t = (m.reset.div.run (m.divIns ins) t).accepted (m.divIns ins t) := by
  rw [divTakes, div_run]

theorem divPulse_eq (m : Ports R H P F X) (ins : ℕ → PortsIn R H P F X) (t : ℕ) :
    m.divPulse ins t = (m.reset.div.run (m.divIns ins) t).pulse (m.divIns ins t) := by
  rw [divPulse, div_run]

/-- An integer divide that the divider takes has been issued in the cycle before, and is not
flushed. -/
theorem takes_int {r : Exec.IntReq R H} (h : m.divTakes ins t = some (.int r)) :
    ∃ s, t = s + 1 ∧ m.picks ins s = true ∧ (ins s).intPick.kind.isDiv = true ∧
      (ins (s + 1)).dsDone = false ∧ r = (m.run ins (s + 1)).divReq := by
  have hstart : (if (m.run ins t).startDiv (ins t) then some (m.run ins t).divReq else none) =
      some r := (UniDivider.accepted_int h).2
  split at hstart
  · next hs =>
    unfold startDiv at hs
    rw [Bool.and_eq_true, Bool.and_eq_true, Bool.not_eq_true'] at hs
    obtain ⟨s, rfl, hp⟩ := start_int m ins hs.1.1
    exact ⟨s, rfl, hp, hs.1.2, hs.2, (Option.some.inj hstart).symm⟩
  · exact absurd hstart (by simp)

/-- So has a floating-point operation. -/
theorem takes_fp {r : Exec.FpReq R P} (h : m.divTakes ins t = some (.fp r)) :
    ∃ s op, t = s + 1 ∧ m.pops ins s = true ∧ (ins s).fpUq.kind = .ds op ∧
      r = (ins s).fpUq.fdivReq op (ins (s + 1)).rm := by
  have hstart : (m.run ins t).fdivStart (ins t) = some r := (UniDivider.accepted_fp h).2.2
  unfold fdivStart at hstart
  split at hstart
  · next op hk =>
    split at hstart
    · next hv =>
      obtain ⟨s, rfl, hp⟩ := iss_valid m ins hv
      exact ⟨s, op, rfl, hp, hk, (Option.some.inj hstart).symm⟩
    · exact absurd hstart (by simp)
  · exact absurd hstart (by simp)

/-- **An integer divide is taken** if it is not flushed as it starts. -/
theorem takes_of_picks (hp : m.picks ins s = true) (hk : (ins s).intPick.kind.isDiv = true)
    (hd : (ins (s + 1)).dsDone = false) :
    m.divTakes ins (s + 1) = some (.int (m.run ins (s + 1)).divReq) := by
  have hr : (m.run ins s).div.ready (m.divIns ins s) = true := ((picks_spec hp).2.1 hk).1
  have hst : (m.run ins (s + 1)).startDiv (ins (s + 1)) = true := by
    have hint : (m.run ins (s + 1)).startInt = true := hp
    have hu : (m.run ins (s + 1)).intUop.kind.isDiv = true := hk
    rw [startDiv, hint, hu, hd]
    rfl
  refine (UniDivider.accepted_of_ready hr _).trans ?_
  show ((if (m.run ins (s + 1)).startDiv (ins (s + 1)) then some _ else none).map _).or _ = _
  rw [hst]
  rfl

/-- **A floating-point divide is taken.** -/
theorem takes_of_pops {op : DivOp} (hp : m.pops ins s = true) (hk : (ins s).fpUq.kind = .ds op) :
    m.divTakes ins (s + 1) = some (.fp ((ins s).fpUq.fdivReq op (ins (s + 1)).rm)) := by
  have hds : (ins s).fpUq.kind.isDs = true := by rw [hk]; rfl
  have hr : (m.run ins s).div.ready (m.divIns ins s) = true := by
    have h := (pops_spec hp).2.1
    rwa [if_pos hds] at h
  have hpop : (m.run ins s).fdivPop (ins s) = true := by
    have h : (m.run ins s).popFpUq (ins s) = true := hp
    rw [fdivPop, h, hds]
    rfl
  -- an integer divide is not issued with it
  have hst : (m.run ins (s + 1)).startDiv (ins (s + 1)) = false := by
    by_contra h
    rw [Bool.not_eq_false] at h
    unfold startDiv at h
    rw [Bool.and_eq_true, Bool.and_eq_true] at h
    have hpick : m.picks ins s = true := h.1.1
    have hno := ((picks_spec hpick).2.1 h.1.2).2
    rw [hpop] at hno
    exact Bool.noConfusion hno
  have hf : (m.run ins (s + 1)).fdivStart (ins (s + 1)) =
      some ((ins s).fpUq.fdivReq op (ins (s + 1)).rm) := by
    have hv : (m.run ins (s + 1)).fpIssValid = true := hp
    have hu : (m.run ins (s + 1)).fpIssUop = (ins s).fpUq := rfl
    rw [fdivStart, hu, hv]
    simp only [hk, if_true]
  refine (UniDivider.accepted_of_ready hr _).trans ?_
  show ((if (m.run ins (s + 1)).startDiv (ins (s + 1)) then some _ else none).map _).or
    (((m.run ins (s + 1)).fdivStart (ins (s + 1))).map _) = _
  rw [hst, hf]
  rfl

/-- What pulses is in the divider. -/
theorem in_of_pulse (h : m.divPulse ins t ≠ none) :
    ∃ s op, m.InDivider ins op s t ∧ m.divPulse ins t = some op.pulse := by
  rw [divPulse_eq] at h
  have hb : (m.reset.div.run (m.divIns ins) t).state ≠ .idle :=
    fun hs => h (UniDivider.pulse_of_idle hs)
  obtain ⟨s, hst, op, ha, hn, hheld⟩ := UniDivider.held_of_busy (m.divIns ins) rfl hb
  rw [← divTakes_eq] at ha
  have hpulse : m.divPulse ins t = some op.pulse := by
    rw [divPulse_eq]
    rcases hheld.go (i := m.divIns ins t) with ⟨hp, -⟩ | ⟨hp, -⟩
    · exact absurd hp h
    · exact hp
  have hsucc : ∃ r, s = r + 1 := by
    cases op with
    | int r =>
      obtain ⟨k, hk, -⟩ := takes_int ha
      exact ⟨k, hk⟩
    | fp r =>
      obtain ⟨k, _, hk, -⟩ := takes_fp ha
      exact ⟨k, hk⟩
  obtain ⟨r, rfl⟩ := hsucc
  exact ⟨r, op, ⟨ha, hst, fun k hk hkt => by rw [divPulse_eq]; exact hn k hk hkt⟩, hpulse⟩

/-- What is in the divider in one cycle is one operation, issued in one cycle. -/
theorem InDivider.unique {op op' : DivUse R H P} {s' : ℕ} (h : m.InDivider ins op s t)
    (h' : m.InDivider ins op' s' t) : s = s' := by
  obtain ⟨ha, hst, hn⟩ := h
  obtain ⟨ha', hst', hn'⟩ := h'
  simp only [divTakes_eq, divPulse_eq] at ha hn ha' hn'
  have heq := UniDivider.accepted_unique (m.divIns ins) ha hst hn ha' hst' hn'
  omega

/-- It pulses once. -/
theorem InDivider.once {op op' : DivUse R H P} {t' : ℕ} (h : m.InDivider ins op s t)
    (h' : m.InDivider ins op' s t') (hp : m.divPulse ins t ≠ none)
    (hp' : m.divPulse ins t' ≠ none) : t = t' := by
  rcases Nat.lt_trichotomy t t' with hlt | heq | hlt
  · exact absurd (h'.2.2 t (Nat.le_of_lt h.2.1) hlt) hp
  · exact heq
  · exact absurd (h.2.2 t' (Nat.le_of_lt h'.2.1) hlt) hp'

/-- It pulses, at the latest in the first cycle, of those from some cycle on, in which its slot is
free. -/
theorem in_ends {op : DivUse R H P} (ha : m.divTakes ins (s + 1) = some op) :
    ∃ n ≤ s + 139, ∀ t ≥ n, op.slotUsed (m.divIns ins t) = false →
      ∃ t' ≤ t, m.InDivider ins op s t' ∧ m.divPulse ins t' = some op.pulse := by
  have ha' := ha
  rw [divTakes_eq] at ha'
  obtain ⟨n, hn, hout⟩ := UniDivider.comes_out (u := m.reset.div.run (m.divIns ins) (s + 1))
    (fun k => m.divIns ins (s + 1 + k)) ha'
  refine ⟨s + 1 + n, by omega, fun t ht hslot => ?_⟩
  obtain ⟨d, rfl⟩ := Nat.exists_eq_add_of_le (by omega : s + 1 ≤ t)
  obtain ⟨k, hk, hnone, hp⟩ := hout d (by omega) hslot
  simp only [← UniDivider.run_add, ← divPulse_eq] at hnone hp
  have hpos : k ≠ 0 := by
    rintro rfl
    have hidle := UniDivider.idle_of_accepted ha'
    rw [divPulse_eq, Nat.add_zero, UniDivider.pulse_of_idle hidle] at hp
    exact absurd hp (by simp)
  refine ⟨s + 1 + k, by omega, ⟨ha, by omega, fun j hj hjk => ?_⟩, hp⟩
  obtain ⟨e, rfl⟩ := Nat.exists_eq_add_of_le hj
  exact hnone e (by omega)

omit [DecidableEq H] [DecidableEq P] [DecidableEq F] in
theorem pulse_of_divComplete {c : Ports R H P F X} {i : PortsIn R H P F X}
    (h : c.divComplete i = true) :
    c.div.pulse (c.divIn i) = some (.int c.div.robPtr c.div.hiloPrfPtr) := if_pos h

omit [DecidableEq H] [DecidableEq P] [DecidableEq F] in
theorem pulse_of_fdivComplete {c : Ports R H P F X} {i : PortsIn R H P F X}
    (h : c.fdivComplete i = true) :
    c.div.pulse (c.divIn i) = some (.fp c.div.robPtr c.div.fpDst) := by
  have hs : c.div.state = .fpWaitwb := by
    unfold fdivComplete UniDivider.fpComplete at h
    rw [Bool.and_eq_true, decide_eq_true_eq] at h
    exact h.1
  have hno : c.div.complete (c.divIn i) = false := by
    rw [UniDivider.complete, hs]
    rfl
  rw [UniDivider.pulse, hno, if_neg Bool.false_ne_true]
  exact if_pos h

omit [DecidableEq H] [DecidableEq P] [DecidableEq F] in
theorem divComplete_of_pulse {c : Ports R H P F X} {i : PortsIn R H P F X} {r : R} {h : H}
    (hp : c.div.pulse (c.divIn i) = some (.int r h)) : c.divComplete i = true := by
  unfold UniDivider.pulse at hp
  split_ifs at hp with hc hf
  · exact hc
  · simp at hp

omit [DecidableEq H] [DecidableEq P] [DecidableEq F] in
theorem fdivComplete_of_pulse {c : Ports R H P F X} {i : PortsIn R H P F X} {r : R} {d : P}
    (hp : c.div.pulse (c.divIn i) = some (.fp r d)) : c.fdivComplete i = true := by
  unfold UniDivider.pulse at hp
  split_ifs at hp with hc hf
  · simp at hp
  · exact hf

/-- **An integer divide that completes** has been issued, and completes with its pointers. -/
theorem div_done (h : (m.run ins t).divComplete (ins t) = true) :
    ∃ s, m.picks ins s = true ∧ (ins s).intPick.kind.isDiv = true ∧
      m.InDivider ins (.int (m.run ins (s + 1)).divReq) s t := by
  have hp : m.divPulse ins t = _ := pulse_of_divComplete h
  have hne : m.divPulse ins t ≠ none := by rw [hp]; simp
  obtain ⟨s, op, hin, hop⟩ := in_of_pulse hne
  cases op with
  | int r =>
    obtain ⟨s', hs, hpick, hk, -, rfl⟩ := takes_int hin.1
    obtain rfl : s' = s := by omega
    exact ⟨s', hpick, hk, hin⟩
  | fp r =>
    rw [hp] at hop
    simp [DivUse.pulse] at hop

theorem fdiv_done (h : (m.run ins t).fdivComplete (ins t) = true) :
    ∃ s op, m.pops ins s = true ∧ (ins s).fpUq.kind = .ds op ∧
      m.InDivider ins (.fp ((ins s).fpUq.fdivReq op (ins (s + 1)).rm)) s t := by
  have hp : m.divPulse ins t = _ := pulse_of_fdivComplete h
  have hne : m.divPulse ins t ≠ none := by rw [hp]; simp
  obtain ⟨s, op, hin, hop⟩ := in_of_pulse hne
  cases op with
  | int r =>
    rw [hp] at hop
    simp [DivUse.pulse] at hop
  | fp r =>
    obtain ⟨s', op, hs, hpop, hk, rfl⟩ := takes_fp hin.1
    obtain rfl : s' = s := by omega
    exact ⟨s', op, hpop, hk, hin⟩

/-- What comes out is what is in the divider. -/
theorem InDivider.pulse_eq {op : DivUse R H P} (h : m.InDivider ins op s t)
    (hp : m.divPulse ins t ≠ none) : m.divPulse ins t = some op.pulse := by
  obtain ⟨s', op', hin, hop⟩ := in_of_pulse hp
  obtain rfl := h.unique hin
  have heq := h.1.symm.trans hin.1
  rwa [← Option.some.inj heq] at hop

end Divides

/-! ## What completes -/

section Ends

variable {m ins} {s t : ℕ}

theorem ends1_of_alu (h : (m.run ins t).aluComplete = true) : ∃ s, m.Ends1 ins s t := by
  obtain ⟨s, rfl, hp, hk⟩ := alu_done h
  refine ⟨s, hp, ?_⟩
  cases hkind : (ins s).intPick.kind <;> simp only [hkind, IntKind.isAlu, Bool.false_eq_true] at hk
  exact ⟨rfl, h⟩

theorem ends1_of_mul (h : (m.run ins t).mulComplete = true) : ∃ s, m.Ends1 ins s t := by
  obtain ⟨s, rfl, hp, hk, -⟩ := mul_done h
  refine ⟨s, hp, ?_⟩
  cases hkind : (ins s).intPick.kind <;> simp only [hkind, IntKind.isMult, Bool.false_eq_true] at hk
  exact ⟨rfl, h⟩

theorem ends1_of_div (h : (m.run ins t).divComplete (ins t) = true) : ∃ s, m.Ends1 ins s t := by
  obtain ⟨s, hp, hk, hin⟩ := div_done h
  refine ⟨s, hp, ?_⟩
  cases hkind : (ins s).intPick.kind <;> simp only [hkind, IntKind.isDiv, Bool.false_eq_true] at hk
  exact ⟨hin, h⟩

theorem completeValid1_iff (m : Ports R H P F X) (ins : ℕ → PortsIn R H P F X) (t : ℕ) :
    (m.run ins (t + 1)).completeValid1 = true ↔ ∃ s, m.Ends1 ins s t := by
  show ((m.run ins t).aluComplete || (m.run ins t).mulComplete ||
    (m.run ins t).divComplete (ins t)) = true ↔ _
  rw [Bool.or_eq_true, Bool.or_eq_true]
  constructor
  · rintro ((h | h) | h)
    exacts [ends1_of_alu h, ends1_of_mul h, ends1_of_div h]
  · rintro ⟨s, -, h⟩
    split at h
    exacts [.inl (.inl h.2), .inl (.inr h.2), .inr h.2]

theorem ends2_of_fpu (h : ((m.run ins t).fpu.val || (m.run ins t).fpu.cmpVal) = true) :
    ∃ s, m.Ends2 ins s t := by
  obtain ⟨s, op, hp, hk, rfl⟩ := fpu_done h
  refine ⟨s, hp, ?_⟩
  rw [hk] at h ⊢
  exact ⟨rfl, h⟩

theorem ends2_of_cvt (h : (m.run ins t).cvtValid = true) : ∃ s, m.Ends2 ins s t := by
  obtain ⟨s, op, hp, hk, rfl⟩ := cvt_done h
  refine ⟨s, hp, ?_⟩
  rw [hk] at h ⊢
  exact ⟨rfl, h⟩

theorem ends2_of_fdiv (h : (m.run ins t).fdivComplete (ins t) = true) : ∃ s, m.Ends2 ins s t := by
  obtain ⟨s, op, hp, hk, hin⟩ := fdiv_done h
  refine ⟨s, hp, ?_⟩
  rw [hk]
  exact ⟨hin, h⟩

theorem completeValid2_iff (m : Ports R H P F X) (ins : ℕ → PortsIn R H P F X) (t : ℕ) :
    (m.run ins (t + 1)).completeValid2 = true ↔ ∃ s, m.Ends2 ins s t := by
  show ((m.run ins t).fpu.val || (m.run ins t).fpu.cmpVal || (m.run ins t).cvtValid ||
    (m.run ins t).fdivComplete (ins t)) = true ↔ _
  rw [Bool.or_eq_true, Bool.or_eq_true (_ || _)]
  constructor
  · rintro ((h | h) | h)
    exacts [ends2_of_fpu h, ends2_of_cvt h, ends2_of_fdiv h]
  · rintro ⟨s, -, h⟩
    split at h
    exacts [.inl (.inl h.2), .inl (.inr h.2), .inr h.2]

/-! ## One operation a cycle -/

theorem count_three {a b c : Bool} (hab : (a && b) = false) (hc : c = true → a = false ∧ b = false) :
    [a, b, c].count true ≤ 1 := by
  cases c with
  | true =>
    obtain ⟨rfl, rfl⟩ := hc rfl
    decide
  | false => revert hab; cases a <;> cases b <;> decide

omit [DecidableEq H] [DecidableEq P] [DecidableEq F] in
/-- What executes in the ALU is an operation. -/
theorem alu_start {c : Ports R H P F X} (h : c.startInt = false) :
    c.aluComplete = false ∧ c.aluWrHilo = false := by
  rw [aluComplete, aluWrHilo, h]
  exact ⟨rfl, rfl⟩

omit [DecidableEq H] [DecidableEq P] [DecidableEq F] in
theorem alu_wrHilo {c : Ports R H P F X} (h : c.aluWrHilo = true) : c.aluComplete = true := by
  unfold aluWrHilo at h
  rw [Bool.and_eq_true] at h
  rw [aluComplete, h.1]
  cases hk : c.intUop.kind <;> simp [hk] at h ⊢
  rfl

/-- **The first port is used once.** -/
theorem port1_once (m : Ports R H P F X) (ins : ℕ → PortsIn R H P F X) (t : ℕ) :
    [(m.run ins t).aluComplete, (m.run ins t).mulComplete,
      (m.run ins t).divComplete (ins t)].count true ≤ 1 :=
  count_three (alu_mul m ins t) fun h => ⟨(alu_start (div_alone h).2).1, (div_alone h).1⟩

/-- **The HILO file is written once.** -/
theorem hilo_once (m : Ports R H P F X) (ins : ℕ → PortsIn R H P F X) (t : ℕ) :
    [(m.run ins t).aluWrHilo, (m.run ins t).mulComplete,
      (m.run ins t).divComplete (ins t)].count true ≤ 1 := by
  refine count_three ?_ fun h => ⟨(alu_start (div_alone h).2).2, (div_alone h).1⟩
  have hno := alu_mul m ins t
  cases hw : (m.run ins t).aluWrHilo with
  | false => rfl
  | true => rwa [alu_wrHilo hw] at hno

/-- The conversions have other slots than the floating-point unit. -/
theorem fpu_cvt (m : Ports R H P F X) (ins : ℕ → PortsIn R H P F X) (t : ℕ) :
    (((m.run ins t).fpu.val || (m.run ins t).fpu.cmpVal) && (m.run ins t).cvtValid) = false := by
  by_contra h
  rw [Bool.not_eq_false, Bool.and_eq_true] at h
  obtain ⟨a, op, ha, hka, hat⟩ := fpu_done h.1
  obtain ⟨b, op', hb, hkb, hbt⟩ := cvt_done h.2
  obtain rfl := fp_slots ha hb (by rw [hka]; rfl) (by rw [hkb]; rfl) (hat.trans hbt.symm)
  rw [hka] at hkb
  exact absurd hkb (by simp)

/-- **The second port is used once.** -/
theorem port2_once (m : Ports R H P F X) (ins : ℕ → PortsIn R H P F X) (t : ℕ) :
    [(m.run ins t).fpu.val, (m.run ins t).fpu.cmpVal, (m.run ins t).cvtValid,
      (m.run ins t).fdivComplete (ins t)].count true ≤ 1 := by
  have hfpu := FpuUnit.val_cmpVal (m.run ins t).fpu
  have hcvt := fpu_cvt m ins t
  cases hf : (m.run ins t).fdivComplete (ins t) with
  | true =>
    obtain ⟨h1, h2, h3⟩ := fdiv_alone hf
    rw [h1, h2, h3]
    decide
  | false =>
    revert hfpu hcvt
    cases (m.run ins t).fpu.val <;> cases (m.run ins t).fpu.cmpVal <;>
      cases (m.run ins t).cvtValid <;> decide

/-- **A completion is that of one operation, and an operation completes once**, on the integer
side. -/
theorem ends1_unique {s' t' : ℕ} (h : m.Ends1 ins s t) (h' : m.Ends1 ins s' t') :
    s = s' ↔ t = t' := by
  obtain ⟨-, h⟩ := h
  obtain ⟨-, h'⟩ := h'
  constructor
  · rintro rfl
    cases hk : (ins s).intPick.kind <;> simp only [hk] at h h'
    · omega
    · omega
    · exact h.1.once h'.1 (by rw [divPulse, divIns, pulse_of_divComplete h.2]; simp)
        (by rw [divPulse, divIns, pulse_of_divComplete h'.2]; simp)
  · rintro rfl
    have hmul := alu_mul m ins t
    have hdiv (hd : (m.run ins t).divComplete (ins t) = true) :=
      And.intro (alu_start (div_alone hd).2).1 (div_alone hd).1
    split at h <;> split at h'
    · omega
    · rw [h.2, h'.2] at hmul
      exact absurd hmul (by decide)
    · exact absurd h.2 (by rw [(hdiv h'.2).1]; decide)
    · rw [h.2, h'.2] at hmul
      exact absurd hmul (by decide)
    · omega
    · exact absurd h.2 (by rw [(hdiv h'.2).2]; decide)
    · exact absurd h'.2 (by rw [(hdiv h.2).1]; decide)
    · exact absurd h'.2 (by rw [(hdiv h.2).2]; decide)
    · exact h.1.unique h'.1

/-- **A completion is that of one operation, and an operation completes once**, on the
floating-point side. -/
theorem ends2_unique {s' t' : ℕ} (h : m.Ends2 ins s t) (h' : m.Ends2 ins s' t') :
    s = s' ↔ t = t' := by
  obtain ⟨hp, h⟩ := h
  obtain ⟨hp', h'⟩ := h'
  constructor
  · rintro rfl
    cases hk : (ins s).fpUq.kind <;> simp only [hk] at h h'
    · omega
    · omega
    · exact h.1.once h'.1 (by rw [divPulse, divIns, pulse_of_fdivComplete h.2]; simp)
        (by rw [divPulse, divIns, pulse_of_fdivComplete h'.2]; simp)
  · rintro rfl
    have hslots (hds : (ins s).fpUq.kind.isDs = false) (hds' : (ins s').fpUq.kind.isDs = false)
        (ht : t = s + (ins s).fpUq.kind.wbDist) (ht' : t = s' + (ins s').fpUq.kind.wbDist) :
        s = s' := fp_slots hp hp' hds hds' (ht.symm.trans ht')
    cases hk : (ins s).fpUq.kind <;> cases hk' : (ins s').fpUq.kind <;>
      simp only [hk, hk'] at h h' hslots
    · exact hslots rfl rfl h.1 h'.1
    · exact hslots rfl rfl h.1 h'.1
    · have hno := fdiv_alone h'.2
      simp [hno] at h
    · exact hslots rfl rfl h.1 h'.1
    · exact hslots rfl rfl h.1 h'.1
    · have hno := fdiv_alone h'.2
      simp [hno] at h
    · have hno := fdiv_alone h.2
      simp [hno] at h'
    · have hno := fdiv_alone h.2
      simp [hno] at h'
    · exact h.1.unique h'.1

end Ends

/-! ## What it completes with -/

section Own

variable {m ins} {s t : ℕ}

/-- What the divider holds has the pointers of the operation. -/
theorem div_pointers {r : Exec.IntReq R H} (hin : m.InDivider ins (.int r) s t)
    (h : (m.run ins t).divComplete (ins t) = true) :
    (m.run ins t).div.robPtr = r.robPtr ∧ (m.run ins t).div.hiloPrfPtr = r.hiloPrfPtr := by
  have hp : m.divPulse ins t = _ := pulse_of_divComplete h
  have heq := hin.pulse_eq (by rw [hp]; simp)
  rw [hp] at heq
  simpa [DivUse.pulse] using heq

theorem fdiv_pointers {r : Exec.FpReq R P} (hin : m.InDivider ins (.fp r) s t)
    (h : (m.run ins t).fdivComplete (ins t) = true) :
    (m.run ins t).div.robPtr = r.robPtr ∧ (m.run ins t).div.fpDst = r.dstPtr := by
  have hp : m.divPulse ins t = _ := pulse_of_fdivComplete h
  have heq := hin.pulse_eq (by rw [hp]; simp)
  rw [hp] at heq
  simpa [DivUse.pulse] using heq

/-- **An integer operation completes with its pointer.** -/
theorem bundle1_eq (h : m.Ends1 ins s t) :
    (m.run ins (t + 1)).bundle1 =
      ⟨(ins s).intPick.robPtr,
        if (ins s).intPick.kind.isAlu then some (ins s).intPick.rest else none⟩ := by
  have hb : (m.run ins (t + 1)).bundle1 =
      if (m.run ins t).mulComplete || (m.run ins t).divComplete (ins t) then
        ⟨if (m.run ins t).mulComplete then (m.run ins t).m3.robPtr else (m.run ins t).div.robPtr,
          none⟩
      else ⟨(m.run ins t).intUop.robPtr, some (m.run ins t).intUop.rest⟩ := rfl
  obtain ⟨-, h⟩ := h
  rw [hb]
  have hmul := alu_mul m ins t
  cases hk : (ins s).intPick.kind <;> simp only [hk] at h
  · obtain ⟨rfl, ha⟩ := h
    have hdiv : (m.run ins (s + 1)).divComplete (ins (s + 1)) = false := by
      by_contra hd
      rw [Bool.not_eq_false] at hd
      rw [(alu_start (div_alone hd).2).1] at ha
      exact Bool.noConfusion ha
    rw [ha, Bool.true_and] at hmul
    rw [hmul, hdiv]
    rfl
  · obtain ⟨rfl, hm⟩ := h
    rw [hm]
    rfl
  · obtain ⟨hin, hd⟩ := h
    rw [(div_alone hd).1, hd, (div_pointers hin hd).1]
    rfl

/-- The multiplier begins with the product. -/
theorem next_m0_y {i : PortsIn R H P F X} {isSigned is32b : Bool}
    (hk : m.intUop.kind = .mult isSigned is32b) :
    (m.next i).m0.y = Exec.mulY isSigned is32b m.intUop.srcA m.intUop.srcB := by
  simp only [next, hk]

/-- **It writes its own HILO register, if it writes one.** -/
theorem hiloPrf_eq (h : m.Ends1 ins s t) {y : BitVec 128} (hy : m.hiloValue ins s t = some y) :
    (m.run ins (t + 1)).hiloPrf (ins s).intPick.hiloDst = y := by
  have hb : (m.run ins (t + 1)).hiloPrf =
      if (m.run ins t).aluWrHilo then
        Function.update (m.run ins t).hiloPrf (m.run ins t).intUop.hiloDst
          (m.run ins t).intUop.hiloResult
      else if (m.run ins t).mulComplete then
        Function.update (m.run ins t).hiloPrf (m.run ins t).m3.hiloPtr (m.run ins t).m3.y
      else if (m.run ins t).divComplete (ins t) then
        Function.update (m.run ins t).hiloPrf (m.run ins t).div.hiloPrfPtr (m.run ins t).div.y
      else (m.run ins t).hiloPrf := rfl
  obtain ⟨hp, h⟩ := h
  rw [hb]
  have hmul := alu_mul m ins t
  cases hk : (ins s).intPick.kind <;> simp only [hk, hiloValue] at h hy
  · obtain ⟨rfl, -⟩ := h
    split at hy
    · next hw =>
      have hst : (m.run ins (s + 1)).aluWrHilo = true := by
        have hint : (m.run ins (s + 1)).startInt = true := hp
        have hu : (m.run ins (s + 1)).intUop.kind = _ := hk
        rw [aluWrHilo, hint, hu]
        exact hw
      rw [hst, if_pos rfl]
      exact (Function.update_self ..).trans (Option.some.inj hy)
    · exact absurd hy (by simp)
  · obtain ⟨rfl, hm⟩ := h
    have hno : (m.run ins (s + 5)).aluWrHilo = false := by
      by_contra hw
      rw [alu_wrHilo (Bool.not_eq_false _ ▸ hw), hm] at hmul
      exact absurd hmul (by decide)
    rw [hno, hm]
    refine (Function.update_self ..).trans ?_
    exact (next_m0_y (m := m.run ins (s + 1)) (i := ins (s + 1)) hk).trans (Option.some.inj hy)
  · obtain ⟨hin, hd⟩ := h
    rw [(alu_start (div_alone hd).2).2, (div_alone hd).1, hd]
    have hptr : (ins s).intPick.hiloDst = (m.run ins t).div.hiloPrfPtr :=
      (div_pointers hin hd).2.symm
    rw [hptr]
    exact (Function.update_self ..).trans (Option.some.inj hy)

/-- No divide completes where anything else does. -/
theorem fdiv_off (h : ((m.run ins t).fpu.val || (m.run ins t).fpu.cmpVal || (m.run ins t).cvtValid) =
    true) : (m.run ins t).fdivComplete (ins t) = false := by
  by_contra hd
  rw [Bool.not_eq_false] at hd
  obtain ⟨h1, h2, h3⟩ := fdiv_alone hd
  rw [h1, h2, h3] at h
  exact Bool.noConfusion h

/-- **A floating-point operation completes with its pointer, its result and its flags.** -/
theorem bundle2_eq (h : m.Ends2 ins s t) :
    (m.run ins (t + 1)).bundle2 =
      ⟨(ins s).fpUq.robPtr, fpFault (m.fpValue ins s t) (ins t).enable, m.fpValue ins s t⟩ := by
  have hb : (m.run ins t).fpCmpl (ins t) = ((ins s).fpUq.robPtr, m.fpValue ins s t) := by
    obtain ⟨hp, h⟩ := h
    unfold fpCmpl fpValue
    cases hk : (ins s).fpUq.kind with
    | unit op =>
      rw [hk] at h
      obtain ⟨rfl, hv⟩ := h
      have hl := leaves_of_pops hp hk
      rw [hk] at hl
      rw [fdiv_off (by rw [hv]; rfl), hv, if_neg Bool.false_ne_true, if_pos rfl, hl.rob, hl.out]
    | sc op =>
      rw [hk] at h
      obtain ⟨rfl, hv⟩ := h
      obtain ⟨-, hrob, -, hout⟩ := cvt_of_pops hp hk
      rw [hk] at hrob hout
      have hno := fpu_cvt m ins (s + FpKind.wbDist (.sc op))
      rw [hv, Bool.and_true] at hno
      rw [fdiv_off (by rw [hv, Bool.or_true]), hno, if_neg Bool.false_ne_true,
        if_neg Bool.false_ne_true, hrob, hout]
    | ds op =>
      rw [hk] at h
      obtain ⟨hin, hd⟩ := h
      rw [hd, if_pos rfl, (fdiv_pointers hin hd).1]
      rfl
  show Bundle2.mk _ _ _ = _
  rw [hb]

/-- **It writes its own register**, but for a compare. -/
theorem fpPrf_eq (h : m.Ends2 ins s t) (hc : (ins s).fpUq.kind.isCmp = false) :
    (m.run ins (t + 1)).fpPrf (ins s).fpUq.dst = (m.fpValue ins s t).y := by
  have hb : (m.run ins (t + 1)).fpPrf =
      if (m.run ins t).fdivComplete (ins t) then
        Function.update (m.run ins t).fpPrf (m.run ins t).div.fpDst (m.run ins t).div.fpY
      else if (m.run ins t).fpu.val then
        Function.update (m.run ins t).fpPrf (m.run ins t).fpu.r0.ptr (m.run ins t).fpu.out.y
      else if (m.run ins t).cvtValid then
        Function.update (m.run ins t).fpPrf (m.run ins t).cvtDst (m.run ins t).cvtOut.y
      else (m.run ins t).fpPrf := rfl
  obtain ⟨hp, h⟩ := h
  rw [hb]
  unfold fpValue
  cases hk : (ins s).fpUq.kind with
  | unit op =>
    rw [hk] at h hc
    obtain ⟨rfl, hv⟩ := h
    have hl := leaves_of_pops hp hk
    have hval : (m.run ins (s + (ins s).fpUq.kind.wbDist)).fpu.val = true := by
      rw [hl.val, show op.isCmp = false from hc]
      rfl
    rw [hk] at hl hval
    rw [fdiv_off (by rw [hv]; rfl), hval, ← hl.ptr, ← hl.out]
    exact Function.update_self ..
  | sc op =>
    rw [hk] at h
    obtain ⟨rfl, hv⟩ := h
    obtain ⟨-, -, hdst, hout⟩ := cvt_of_pops hp hk
    rw [hk] at hdst hout
    have hno := fpu_cvt m ins (s + FpKind.wbDist (.sc op))
    rw [hv, Bool.and_true, Bool.or_eq_false_iff] at hno
    rw [fdiv_off (by rw [hv, Bool.or_true]), hno.1, hv, ← hdst, ← hout]
    exact Function.update_self ..
  | ds op =>
    rw [hk] at h
    obtain ⟨hin, hd⟩ := h
    have hdst : (ins s).fpUq.dst = (m.run ins t).div.fpDst := (fdiv_pointers hin hd).2.symm
    rw [hd, hdst]
    exact Function.update_self ..

/-- **A compare writes its own condition codes.** -/
theorem fcrPrf_eq (h : m.Ends2 ins s t) (hc : (ins s).fpUq.kind.isCmp = true) :
    (m.run ins (t + 1)).fcrPrf (ins s).fpUq.hiloDst = (m.fpValue ins s t).y.setWidth 8 := by
  obtain ⟨hp, h⟩ := h
  unfold fpValue
  cases hk : (ins s).fpUq.kind with
  | unit op =>
    rw [hk] at h
    obtain ⟨rfl, -⟩ := h
    have hl := leaves_of_pops hp hk
    rw [hk] at hl hc
    have hop : op.isCmp = true := hc
    have hb (t : ℕ) (hv : (m.run ins t).fpu.cmpVal = true) : (m.run ins (t + 1)).fcrPrf =
        Function.update (m.run ins t).fcrPrf (m.run ins t).fpu.r0.fcr
          ((m.run ins t).fpu.out.y.setWidth 8) := if_pos hv
    rw [hb _ (hl.cmpVal.trans hop), ← hl.fcr hop, ← hl.out]
    exact Function.update_self ..
  | sc op => rw [hk] at hc; exact absurd hc Bool.false_ne_true
  | ds op => rw [hk] at hc; exact absurd hc Bool.false_ne_true

omit [DecidableEq H] [DecidableEq P] [DecidableEq F] in
theorem divReq_eq {isSigned is32b : Bool} (hk : m.intUop.kind = .div isSigned is32b) :
    m.divReq =
      { srcA := m.intUop.srcA, srcB := m.intUop.srcB, is32b, isSignedDiv := isSigned
        robPtr := m.intUop.robPtr, hiloPrfPtr := m.intUop.hiloDst } := by
  simp only [divReq, hk]

/-- An integer divide that is not flushed comes out with its quotient and remainder. -/
theorem div_result {r : Exec.IntReq R H} (hin : m.InDivider ins (.int r) s t)
    (h : (m.run ins t).divComplete (ins t) = true)
    (hf : ∀ k, s < k → k < t → (ins k).dsDone = false) :
    (m.run ins t).div.y = Exec.Divider.settled r.srcA r.srcB r.is32b r.isSignedDiv := by
  obtain ⟨ha, hst, hn⟩ := hin
  obtain ⟨d, rfl⟩ := Nat.exists_eq_add_of_le (Nat.le_of_lt hst)
  have hp : m.divPulse ins (s + 1 + d) ≠ none := by
    rw [divPulse, divIns, pulse_of_divComplete h]
    simp
  rw [divTakes_eq] at ha
  rw [divPulse_eq, UniDivider.run_add] at hp
  rw [div_run, UniDivider.run_add]
  refine UniDivider.int_result (fun k => m.divIns ins (s + 1 + k)) ha (fun k hk => ?_)
    (fun k hk => hf (s + 1 + k) (by omega) (by omega)) hp
  rw [← UniDivider.run_add, ← divPulse_eq]
  exact hn _ (by omega) (by omega)

/-- A floating-point divide that is not flushed comes out with its result and flags. -/
theorem fdiv_result {r : Exec.FpReq R P} (hin : m.InDivider ins (.fp r) s t)
    (h : (m.run ins t).fdivComplete (ins t) = true)
    (hf : ∀ k, s < k → k < t → (ins k).dsDone = false) :
    DivSpec r.req (m.run ins t).div.fpOut := by
  obtain ⟨ha, hst, hn⟩ := hin
  obtain ⟨d, rfl⟩ := Nat.exists_eq_add_of_le (Nat.le_of_lt hst)
  have hp : m.divPulse ins (s + 1 + d) ≠ none := by
    rw [divPulse, divIns, pulse_of_fdivComplete h]
    simp
  rw [divTakes_eq] at ha
  rw [divPulse_eq, UniDivider.run_add] at hp
  rw [div_run, UniDivider.run_add]
  refine UniDivider.fp_result (fun k => m.divIns ins (s + 1 + k)) ha (fun k hk => ?_)
    (fun k hk => hf (s + 1 + k) (by omega) (by omega)) hp
  rw [← UniDivider.run_add, ← divPulse_eq]
  exact hn _ (by omega) (by omega)

end Own

/-! ## What is issued completes -/

section Completes

variable {m ins} {s t : ℕ}

theorem alu_ends (hp : m.picks ins s = true) (hk : (ins s).intPick.kind.isAlu = true) :
    m.Ends1 ins s (s + 1) := by
  refine ⟨hp, ?_⟩
  have ha := alu_of_picks hp hk
  cases hkind : (ins s).intPick.kind with
  | alu wrHilo wrFcsr => exact ⟨rfl, ha⟩
  | mult isSigned is32b => rw [hkind] at hk; exact absurd hk Bool.false_ne_true
  | div isSigned is32b => rw [hkind] at hk; exact absurd hk Bool.false_ne_true

theorem mult_ends (hp : m.picks ins s = true) (hk : (ins s).intPick.kind.isMult = true)
    (hd : (ins (s + 1)).dsDone = false) : m.Ends1 ins s (s + 5) := by
  refine ⟨hp, ?_⟩
  have hm := mul_of_picks hp hk hd
  cases hkind : (ins s).intPick.kind with
  | alu wrHilo wrFcsr => rw [hkind] at hk; exact absurd hk Bool.false_ne_true
  | mult isSigned is32b => exact ⟨rfl, hm⟩
  | div isSigned is32b => rw [hkind] at hk; exact absurd hk Bool.false_ne_true

theorem div_ends (hp : m.picks ins s = true) (hk : (ins s).intPick.kind.isDiv = true)
    (hd : (ins (s + 1)).dsDone = false) : ∃ n ≤ s + 139, ∀ t ≥ n,
      ((m.run ins t).mulComplete || (m.run ins t).startInt) = false →
      ∃ t' ≤ t, m.Ends1 ins s t' := by
  obtain ⟨n, hn, hends⟩ := in_ends (takes_of_picks hp hk hd)
  refine ⟨n, hn, fun t ht hslot => ?_⟩
  obtain ⟨t', ht', hin, hpulse⟩ := hends t ht hslot
  refine ⟨t', ht', hp, ?_⟩
  cases hkind : (ins s).intPick.kind with
  | alu wrHilo wrFcsr => rw [hkind] at hk; exact absurd hk Bool.false_ne_true
  | mult isSigned is32b => rw [hkind] at hk; exact absurd hk Bool.false_ne_true
  | div isSigned is32b => exact ⟨hin, divComplete_of_pulse hpulse⟩

theorem fp_ends (hp : m.pops ins s = true) (hk : (ins s).fpUq.kind.isDs = false) :
    m.Ends2 ins s (s + (ins s).fpUq.kind.wbDist) := by
  refine ⟨hp, ?_⟩
  cases hkind : (ins s).fpUq.kind with
  | unit op =>
    have hl := leaves_of_pops hp hkind
    rw [hkind] at hl
    refine ⟨rfl, ?_⟩
    rw [hl.val, hl.cmpVal]
    cases op.isCmp <;> rfl
  | sc op =>
    have hv := (cvt_of_pops hp hkind).1
    rw [hkind] at hv
    exact ⟨rfl, hv⟩
  | ds op => rw [hkind] at hk; exact absurd hk.symm Bool.false_ne_true

theorem fdiv_ends (hp : m.pops ins s = true) (hk : (ins s).fpUq.kind.isDs = true) :
    ∃ n ≤ s + 139, ∀ t ≥ n, (m.run ins t).fdivWbUsed = false → ∃ t' ≤ t, m.Ends2 ins s t' := by
  cases hkind : (ins s).fpUq.kind with
  | unit op => rw [hkind] at hk; exact absurd hk Bool.false_ne_true
  | sc op => rw [hkind] at hk; exact absurd hk Bool.false_ne_true
  | ds op =>
    obtain ⟨n, hn, hends⟩ := in_ends (takes_of_pops hp hkind)
    refine ⟨n, hn, fun t ht hslot => ?_⟩
    obtain ⟨t', ht', hin, hpulse⟩ := hends t ht hslot
    refine ⟨t', ht', hp, ?_⟩
    rw [hkind]
    exact ⟨hin, fdivComplete_of_pulse hpulse⟩

/-- **What is flushed as it starts does not complete**, but in the ALU. -/
theorem not_ends1 (hk : (ins s).intPick.kind.isAlu = false) (hd : (ins (s + 1)).dsDone = true) :
    ¬ m.Ends1 ins s t := by
  rintro ⟨-, h⟩
  cases hkind : (ins s).intPick.kind <;> rw [hkind] at hk <;> simp only [hkind] at h
  · exact absurd hk.symm Bool.false_ne_true
  · obtain ⟨rfl, hm⟩ := h
    obtain ⟨s', hs, -, -, hno⟩ := mul_done hm
    obtain rfl : s' = s := by omega
    rw [hd] at hno
    exact Bool.noConfusion hno
  · obtain ⟨s', hs, -, -, hno, -⟩ := takes_int h.1.1
    obtain rfl : s' = s := by omega
    rw [hd] at hno
    exact Bool.noConfusion hno

end Completes

/-! ## The law of the ports -/

/-- What holds of a run. -/
structure Law (m : Ports R H P F X) (ins : ℕ → PortsIn R H P F X) : Prop where
  /-- Nothing is used twice in a cycle. -/
  port1 : ∀ t, [(m.run ins t).aluComplete, (m.run ins t).mulComplete,
    (m.run ins t).divComplete (ins t)].count true ≤ 1
  hilo : ∀ t, [(m.run ins t).aluWrHilo, (m.run ins t).mulComplete,
    (m.run ins t).divComplete (ins t)].count true ≤ 1
  port2 : ∀ t, [(m.run ins t).fpu.val, (m.run ins t).fpu.cmpVal, (m.run ins t).cvtValid,
    (m.run ins t).fdivComplete (ins t)].count true ≤ 1
  start : ∀ t, ((m.run ins t).fpuStart && (m.run ins t).fpu.restart) = false
  /-- A completion is that of one operation, which completes once. -/
  ends1 : ∀ t, (m.run ins (t + 1)).completeValid1 = true ↔ ∃ s, m.Ends1 ins s t
  ends2 : ∀ t, (m.run ins (t + 1)).completeValid2 = true ↔ ∃ s, m.Ends2 ins s t
  unique1 : ∀ s t s' t', m.Ends1 ins s t → m.Ends1 ins s' t' → (s = s' ↔ t = t')
  unique2 : ∀ s t s' t', m.Ends2 ins s t → m.Ends2 ins s' t' → (s = s' ↔ t = t')
  /-- It has the pointers and the result of the operation. -/
  bundle1 : ∀ s t, m.Ends1 ins s t → (m.run ins (t + 1)).bundle1 =
    ⟨(ins s).intPick.robPtr,
      if (ins s).intPick.kind.isAlu then some (ins s).intPick.rest else none⟩
  hiloPrf : ∀ s t y, m.Ends1 ins s t → m.hiloValue ins s t = some y →
    (m.run ins (t + 1)).hiloPrf (ins s).intPick.hiloDst = y
  bundle2 : ∀ s t, m.Ends2 ins s t → (m.run ins (t + 1)).bundle2 =
    ⟨(ins s).fpUq.robPtr, fpFault (m.fpValue ins s t) (ins t).enable, m.fpValue ins s t⟩
  fpPrf : ∀ s t, m.Ends2 ins s t → (ins s).fpUq.kind.isCmp = false →
    (m.run ins (t + 1)).fpPrf (ins s).fpUq.dst = (m.fpValue ins s t).y
  fcrPrf : ∀ s t, m.Ends2 ins s t → (ins s).fpUq.kind.isCmp = true →
    (m.run ins (t + 1)).fcrPrf (ins s).fpUq.hiloDst = (m.fpValue ins s t).y.setWidth 8
  /-- The result of a divide that is not flushed. -/
  div : ∀ s t isSigned is32b, m.Ends1 ins s t → (ins s).intPick.kind = .div isSigned is32b →
    (∀ k, s < k → k < t → (ins k).dsDone = false) → (m.run ins t).div.y =
      Exec.Divider.settled (ins s).intPick.srcA (ins s).intPick.srcB is32b isSigned
  fdiv : ∀ s t op, m.Ends2 ins s t → (ins s).fpUq.kind = .ds op →
    (∀ k, s < k → k < t → (ins k).dsDone = false) →
      DivSpec ((ins s).fpUq.fdivReq op (ins (s + 1)).rm).req (m.fpValue ins s t)
  /-- A multiply-add is the product, rounded, and the sum of it, rounded, with the flags of
  both. -/
  madd : ∀ s t op, m.Ends2 ins s t → (ins s).fpUq.kind = .unit op → op.isMadd = true →
    let dbl := op.maddDbl
    let i := (ins s).fpUq.fpuIn true ((m.run ins s).fcrPrf (ins s).fpUq.hiloSrc) (ins (s + 1)).rm
    let prod := FpuUnit.result { i with op := .mul dbl }
    let sum := FpuUnit.result { i with
      op := if op.maddSub then .sub dbl else .add dbl
      srcA := prod.y, srcB := (ins s).fpUq.srcC, rm := (ins (s + 5)).rm }
    m.fpValue ins s t =
      ⟨if op.maddNeg then Fpu.flipSign dbl sum.y else sum.y, sum.denorm || prod.denorm,
        sum.fflags.or prod.fflags⟩
  /-- What is issued completes: in its slot, or, a divide, in the first cycle at the latest, of
  those from some cycle on, in which its port is free. -/
  alu_ends : ∀ s, m.picks ins s = true → (ins s).intPick.kind.isAlu = true →
    m.Ends1 ins s (s + 1)
  mult_ends : ∀ s, m.picks ins s = true → (ins s).intPick.kind.isMult = true →
    (ins (s + 1)).dsDone = false → m.Ends1 ins s (s + 5)
  div_ends : ∀ s, m.picks ins s = true → (ins s).intPick.kind.isDiv = true →
    (ins (s + 1)).dsDone = false → ∃ n ≤ s + 139, ∀ t ≥ n,
      ((m.run ins t).mulComplete || (m.run ins t).startInt) = false → ∃ t' ≤ t, m.Ends1 ins s t'
  fp_ends : ∀ s, m.pops ins s = true → (ins s).fpUq.kind.isDs = false →
    m.Ends2 ins s (s + (ins s).fpUq.kind.wbDist)
  fdiv_ends : ∀ s, m.pops ins s = true → (ins s).fpUq.kind.isDs = true →
    ∃ n ≤ s + 139, ∀ t ≥ n, (m.run ins t).fdivWbUsed = false → ∃ t' ≤ t, m.Ends2 ins s t'
  /-- A multiply or a divide that is flushed as it starts does not. -/
  flushed : ∀ s t, (ins s).intPick.kind.isAlu = false → (ins (s + 1)).dsDone = true →
    ¬ m.Ends1 ins s t

/-- **The law of the ports.**  It holds of every run from a reset, whatever is issued and whenever
it is flushed. -/
theorem ports_law (m : Ports R H P F X) (ins : ℕ → PortsIn R H P F X) : Law m ins where
  port1 := port1_once m ins
  hilo := hilo_once m ins
  port2 := port2_once m ins
  start := no_clash m ins
  ends1 := completeValid1_iff m ins
  ends2 := completeValid2_iff m ins
  unique1 s t s' t' h h' := ends1_unique h h'
  unique2 s t s' t' h h' := ends2_unique h h'
  bundle1 s t h := bundle1_eq h
  hiloPrf s t y h hy := hiloPrf_eq h hy
  bundle2 s t h := bundle2_eq h
  fpPrf s t h hc := fpPrf_eq h hc
  fcrPrf s t h hc := fcrPrf_eq h hc
  div s t isSigned is32b h hk hf := by
    obtain ⟨-, h⟩ := h
    rw [hk] at h
    rw [div_result h.1 h.2 hf, divReq_eq (m := m.run ins (s + 1)) hk]
    rfl
  fdiv s t op h hk hf := by
    obtain ⟨-, h⟩ := h
    rw [hk] at h
    rw [fpValue, hk]
    exact fdiv_result h.1 h.2 hf
  madd s t op h hk hm := by
    have hop (b : Bool) (fcr : BitVec 8) (rm : Hw.RoundMode) :
        ((ins s).fpUq.fpuIn b fcr rm).op = op := fpuIn_op hk
    have heq := FpuUnit.maddResult_eq ((ins s).fpUq.fpuIn true
      ((m.run ins s).fcrPrf (ins s).fpUq.hiloSrc) (ins (s + 1)).rm) (ins (s + 5)).rm
      (by rw [hop]; exact hm)
    simp only [hop] at heq
    rw [fpValue, hk, fpResult, hk]
    simp only [hm, if_true]
    exact heq
  alu_ends s hp hk := Ports.alu_ends hp hk
  mult_ends s hp hk hd := Ports.mult_ends hp hk hd
  div_ends s hp hk hd := Ports.div_ends hp hk hd
  fp_ends s hp hk := Ports.fp_ends hp hk
  fdiv_ends s hp hk := Ports.fdiv_ends hp hk
  flushed s t hk hd := not_ends1 hk hd

/-! ## What does not complete -/

section Incomplete

deriving instance Inhabited for Hw.RoundMode, Fpu.Fflags, Fpu.Out, Fpu.Sig, Fpu.OpMeta, Fpu.Add.Op,
  Fpu.Add.R1, Fpu.Add.R2, Fpu.Add.R3, Fpu.Add, Fpu.Mul.R1, Fpu.Mul.R2, Fpu.Mul.R3, Fpu.Mul,
  Fpu.FpuOp, Fpu.FpuStage, Fpu.CmpStage, Fpu.FpuUnit, DivOp, IntKind, IntUop, ScOp, FpKind, FpUop,
  MulStage, Bundle1, Bundle2, Exec.UniState, UniDivider, Ports

/-- An integer operation in every cycle: `kind` says which, and `dsDone` when it is flushed. -/
def always (kind : ℕ → IntKind) (dsDone : ℕ → Bool) (t : ℕ) : PortsIn ℕ ℕ ℕ ℕ Unit :=
  { intRdy := true
    intPick := ⟨kind t, t, t, t, 6, 2, 0, ()⟩
    fpRdy := false, fpUq := default, dsDone := dsDone t, rm := .nearest, enable := default }

/-- A divide, and then multiplies. -/
def divThenMults (t : ℕ) : IntKind := if t = 0 then .div true false else .mult true false

variable {kind : ℕ → IntKind} {dsDone : ℕ → Bool} {m : Ports ℕ ℕ ℕ ℕ Unit} {t : ℕ}

/-- The first of them is issued. -/
theorem picks_always_zero (hd : dsDone 0 = false) : m.picks (always kind dsDone) 0 = true := by
  have hstart : m.reset.fdivStart (always kind dsDone 0) = none := by
    unfold fdivStart
    cases m.reset.fpIssUop.kind <;> rfl
  have hready : m.reset.divReady (always kind dsDone 0) = true := by
    rw [divReady, UniDivider.ready, divIn, hstart]
    rfl
  have hfree (k : ℕ) : m.reset.wbBitvec.getLsbD k = false := BitVec.getLsbD_zero
  have hslot : m.reset.intSlot (always kind dsDone 0) = true := by
    rw [intSlot, hready, hfree, hfree]
    cases (always kind dsDone 0).intPick.kind <;> rfl
  show (true && m.reset.intSlot (always kind dsDone 0) && !dsDone 0) = true
  rw [hslot, hd]
  rfl

/-- A multiply is issued but where the slot of the divide is. -/
theorem picks_mults (m : Ports ℕ ℕ ℕ ℕ Unit) (h0 : t ≠ 0) (h63 : t ≠ 63) :
    m.picks (always divThenMults fun _ => false) t = true := by
  have hk : (always divThenMults (fun _ => false) t).intPick.kind = .mult true false := if_neg h0
  have hfree : (m.run (always divThenMults fun _ => false) t).wbBitvec.getLsbD 5 = false := by
    by_contra h
    obtain ⟨s, hs, d, hd, hsd⟩ := (wb_iff m _ t 5).1 (Bool.not_eq_false _ ▸ h)
    split at hd
    · next hdiv =>
      -- the divide is the first operation
      unfold startDiv at hdiv
      rw [Bool.and_eq_true, Bool.and_eq_true] at hdiv
      obtain ⟨r, rfl, -⟩ := start_int m _ hdiv.1.1
      have hdk : (divThenMults r).isDiv = true := hdiv.1.2
      have hr : r = 0 := by
        by_contra hne
        rw [divThenMults, if_neg hne] at hdk
        exact Bool.noConfusion hdk
      obtain rfl := Option.some.inj hd
      omega
    · split at hd
      · obtain rfl := Option.some.inj hd
        omega
      · exact absurd hd (by simp)
  show (true && intSlot _ _ && true) = true
  rw [intSlot, hk, hfree]
  rfl

/-- The port of the divider is never free. -/
theorem starved (m : Ports ℕ ℕ ℕ ℕ Unit) (t : ℕ) :
    (m.run (always divThenMults fun _ => false) t).divComplete
      (always divThenMults (fun _ => false) t) = false := by
  by_contra h
  rw [Bool.not_eq_false] at h
  obtain ⟨hmul, hst⟩ := div_alone h
  cases t with
  | zero => exact Bool.noConfusion h
  | succ t =>
    have hno : m.picks (always divThenMults fun _ => false) t = false := hst
    by_cases h0 : t = 0
    · rw [h0, picks_always_zero rfl] at hno
      exact Bool.noConfusion hno
    · by_cases h63 : t = 63
      · subst h63
        rw [mul_of_picks (s := 59) (picks_mults m (by decide) (by decide)) rfl rfl] at hmul
        exact Bool.noConfusion hmul
      · rw [picks_mults m h0 h63] at hno
        exact Bool.noConfusion hno

/-- A multiply that is flushed as it starts does not complete, nor does, without a flush, a divide
whose port is never free. -/
theorem not_every_completes :
    (¬ ∀ (m : Ports ℕ ℕ ℕ ℕ Unit) (ins : ℕ → PortsIn ℕ ℕ ℕ ℕ Unit),
      (∀ t, (ins t).intPick.kind.isMult = true) →
        ∀ s, m.picks ins s = true → ∃ t, m.Ends1 ins s t) ∧
    ¬ ∀ (m : Ports ℕ ℕ ℕ ℕ Unit) (ins : ℕ → PortsIn ℕ ℕ ℕ ℕ Unit),
      (∀ t, (ins t).dsDone = false) → ∀ s, m.picks ins s = true → ∃ t, m.Ends1 ins s t := by
  constructor
  · intro h
    obtain ⟨t, ht⟩ := h default (always (fun _ => .mult true false) (· = 1)) (fun _ => rfl) 0
      (picks_always_zero rfl)
    exact not_ends1 rfl rfl ht
  · intro h
    obtain ⟨t, -, ht⟩ := h default (always divThenMults fun _ => false) (fun _ => rfl) 0
      (picks_always_zero rfl)
    have hd : (Ports.run default _ t).divComplete _ = true := ht.2
    rw [starved] at hd
    exact Bool.noConfusion hd

end Incomplete

end Ports

end Issue

end R9999
