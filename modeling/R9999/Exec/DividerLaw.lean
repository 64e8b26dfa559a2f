import R9999.Exec.UniDivider

/-!
# The transactions of the divider

What goes into the unit and what comes out, over every run: the operations it accepts, the
pulses it raises, whatever is flushed and whenever a slot is free.  The unit holds one
operation at most (`Holding`), and what it has accepted is what it has pulsed for, with the one
it holds (`conserved`).

A flushed floating-point operation comes out with what the output registers had
(`flushed_inherits`); one that is not flushed comes out with its own result.
-/

namespace R9999

namespace Exec

open Fpu (DivReq DivIn DivSpec FpDivider Out)

variable {R H P : Type*}

/-- An operation of either side. -/
inductive DivUse (R H P : Type*) where
  | int (r : IntReq R H)
  | fp (r : FpReq R P)

/-- A completion pulse: its port, and the pointers that go with it. -/
inductive Pulse (R H P : Type*) where
  | int (robPtr : R) (hiloPrfPtr : H)
  | fp (robPtr : R) (dstPtr : P)
  deriving DecidableEq

/-- The pulse that an operation is owed. -/
def DivUse.pulse : DivUse R H P → Pulse R H P
  | .int r => .int r.robPtr r.hiloPrfPtr
  | .fp r => .fp r.robPtr r.dstPtr

/-- The slot that an operation waits for. -/
def DivUse.slotUsed (op : DivUse R H P) (i : UniIn R H P) : Bool :=
  match op with
  | .int _ => i.wbSlotUsed
  | .fp _ => i.fpWbSlotUsed

namespace UniDivider

section Cycle

variable (u : UniDivider R H P) (i : UniIn R H P)

/-- The operation that the unit accepts in a cycle. -/
def accepted : Option (DivUse R H P) :=
  if u.state = .idle then (i.start.map DivUse.int).or (i.fpStart.map DivUse.fp) else none

/-- The pulse that the unit raises in a cycle. -/
def pulse : Option (Pulse R H P) :=
  if u.complete i then some (.int u.robPtr u.hiloPrfPtr)
  else if u.fpComplete i then some (.fp u.robPtr u.fpDst)
  else none

/-- What is left to do. -/
def measure : ℕ :=
  let again := if u.rsqrt then 70 else 0
  match u.state with
  | .idle => 0
  | .iter => (u.last - u.cnt).toNat + 4 + if u.isFp then again else 0
  | .intPack => 2
  | .intWaitwb => 1
  | .fpNorm => 3 + again
  | .fpRound => 2 + again
  | .fpWaitwb => 1
  | .fpRsqrt2 => 68

end Cycle

section Run

variable (u : UniDivider R H P) (ins : ℕ → UniIn R H P)

/-- The operations accepted before a cycle. -/
def accepts : ℕ → List (DivUse R H P)
  | 0 => []
  | t + 1 => accepts t ++ ((u.run ins t).accepted (ins t)).toList

/-- The pulses raised before a cycle. -/
def pulses : ℕ → List (Pulse R H P)
  | 0 => []
  | t + 1 => pulses t ++ ((u.run ins t).pulse (ins t)).toList

end Run

/-! ## The operation in the unit -/

/-- The unit works on an integer divide. -/
structure ServesInt (u : UniDivider R H P) (r : IntReq R H) : Prop where
  state : u.state = .iter ∨ u.state = .intPack ∨ u.state = .intWaitwb
  isFp : u.isFp = false
  isSqrt : u.isSqrt = false
  robPtr : u.robPtr = r.robPtr
  hiloPrfPtr : u.hiloPrfPtr = r.hiloPrfPtr

/-- The unit works on a floating-point operation. -/
structure ServesFp (u : UniDivider R H P) (r : FpReq R P) : Prop where
  busy : u.state ≠ .idle
  not_intPack : u.state ≠ .intPack
  not_intWaitwb : u.state ≠ .intWaitwb
  isFp : u.isFp = true
  robPtr : u.robPtr = r.robPtr
  dstPtr : u.fpDst = r.dstPtr

/-- What the unit holds. -/
def Holding (u : UniDivider R H P) : Option (DivUse R H P) → Prop
  | none => u.state = .idle
  | some (.int r) => u.ServesInt r
  | some (.fp r) => u.ServesFp r

section Step

variable {u : UniDivider R H P} {i : UniIn R H P}

theorem accepted_eq_none (hs : u.state ≠ .idle) : u.accepted i = none := if_neg hs

theorem pulse_of_idle (hs : u.state = .idle) : u.pulse i = none := by
  simp [pulse, complete, fpComplete, hs]

/-- An integer divide goes on until its pulse. -/
theorem ServesInt.next {r : IntReq R H} (h : u.ServesInt r) :
    u.pulse i = none ∧ (u.next i).ServesInt r ∨
      u.pulse i = some (.int r.robPtr r.hiloPrfPtr) ∧ (u.next i).state = .idle := by
  obtain ⟨hs, hfp, hsq, hr, hh⟩ := h
  rcases hs with hs | hs | hs
  · refine .inl ⟨by simp [pulse, complete, fpComplete, hs], ?_⟩
    by_cases hl : u.cnt = u.last <;> cases hf : i.flush <;>
      exact ⟨by simp [UniDivider.next, hs, hl, hf, hfp], by simp [UniDivider.next, hs, hl, iterate, hfp],
        by simp [UniDivider.next, hs, hl, iterate, hsq], by simp [UniDivider.next, hs, hl, iterate, hr],
        by simp [UniDivider.next, hs, hl, iterate, hh]⟩
  · refine .inl ⟨by simp [pulse, complete, fpComplete, hs], ?_⟩
    have hn : u.next i =
        { u with q := u.intSide.lo, rem := u.intSide.hi.setWidth 66, state := .intWaitwb } := by
      simp only [UniDivider.next, hs]
    rw [hn]
    exact ⟨.inr (.inr rfl), hfp, hsq, hr, hh⟩
  · cases hw : i.wbSlotUsed with
    | true =>
      have hn : u.next i = u := by simp only [UniDivider.next, hs, hw, if_true]
      rw [hn]
      exact .inl ⟨by simp [pulse, complete, fpComplete, hs, hw], .inr (.inr hs), hfp, hsq, hr, hh⟩
    | false =>
      refine .inr ⟨by simp [pulse, complete, hs, hw, hr, hh], ?_⟩
      simp [UniDivider.next, hs, hw]

/-- A floating-point operation goes on until its pulse. -/
theorem ServesFp.next {r : FpReq R P} (h : u.ServesFp r) :
    u.pulse i = none ∧ (u.next i).ServesFp r ∨
      u.pulse i = some (.fp r.robPtr r.dstPtr) ∧ (u.next i).state = .idle := by
  obtain ⟨hb, hp, hw, hfp, hr, hd⟩ := h
  cases hs : u.state with
  | idle => exact absurd hs hb
  | intPack => exact absurd hs hp
  | intWaitwb => exact absurd hs hw
  | iter =>
    refine .inl ⟨by simp [pulse, complete, fpComplete, hs], ?_⟩
    by_cases hl : u.cnt = u.last <;> cases hf : i.flush <;>
      exact ⟨by simp [UniDivider.next, hs, hl, hf, hfp], by simp [UniDivider.next, hs, hl, hf, hfp],
        by simp [UniDivider.next, hs, hl, hf, hfp],
        by simp [UniDivider.next, hs, hl, iterate, hfp],
        by simp [UniDivider.next, hs, hl, iterate, hr],
        by simp [UniDivider.next, hs, hl, iterate, hd]⟩
  | fpNorm =>
    refine .inl ⟨by simp [pulse, complete, fpComplete, hs], ?_⟩
    exact ⟨by simp [UniDivider.next, hs], by simp [UniDivider.next, hs],
      by simp [UniDivider.next, hs], by simp [UniDivider.next, hs, hfp],
      by simp [UniDivider.next, hs, hr], by simp [UniDivider.next, hs, hd]⟩
  | fpRound =>
    refine .inl ⟨by simp [pulse, complete, fpComplete, hs], ?_⟩
    cases hrs : u.rsqrt <;>
      exact ⟨by simp [UniDivider.next, hs, hrs], by simp [UniDivider.next, hs, hrs],
        by simp [UniDivider.next, hs, hrs], by simp [UniDivider.next, hs, hfp],
        by simp [UniDivider.next, hs, hr], by simp [UniDivider.next, hs, hd]⟩
  | fpRsqrt2 =>
    refine .inl ⟨by simp [pulse, complete, fpComplete, hs], ?_⟩
    have hst : (u.next i).state ≠ .idle ∧ (u.next i).state ≠ .intPack ∧
        (u.next i).state ≠ .intWaitwb := by
      simp only [UniDivider.next, hs, loadFp]
      split_ifs <;> decide
    exact ⟨hst.1, hst.2.1, hst.2.2, by simp [UniDivider.next, hs, loadFp, hfp],
      by simp [UniDivider.next, hs, loadFp, hr], by simp [UniDivider.next, hs, loadFp, hd]⟩
  | fpWaitwb =>
    cases hf : i.fpWbSlotUsed with
    | true =>
      have hn : u.next i = u := by simp only [UniDivider.next, hs, hf, if_true]
      rw [hn]
      exact .inl ⟨by simp [pulse, complete, fpComplete, hs, hf], hb, hp, hw, hfp, hr, hd⟩
    | false =>
      refine .inr ⟨by simp [pulse, complete, fpComplete, hs, hf, hr, hd], ?_⟩
      simp [UniDivider.next, hs, hf]

/-- The unit holds the operation it accepts. -/
theorem Holding.accept (hs : u.state = .idle) : (u.next i).Holding (u.accepted i) := by
  rw [accepted, if_pos hs]
  cases hq : i.start with
  | some r =>
    have hn : u.next i = u.loadInt r := by simp only [UniDivider.next, hs, hq]
    rw [hn]
    exact ⟨.inl rfl, rfl, rfl, rfl, rfl⟩
  | none =>
    cases hp : i.fpStart with
    | none => simp [Holding, UniDivider.next, hs, hq, hp]
    | some r =>
      have hst : (u.next i).state ≠ .idle ∧ (u.next i).state ≠ .intPack ∧
          (u.next i).state ≠ .intWaitwb := by
        simp only [UniDivider.next, hs, hq, hp, loadFp]
        split_ifs <;> decide
      exact ⟨hst.1, hst.2.1, hst.2.2, by simp [UniDivider.next, hs, hq, hp],
        by simp [UniDivider.next, hs, hq, hp], by simp [UniDivider.next, hs, hq, hp]⟩

/-- What is started in the cycle after the unit has reported ready is accepted. -/
theorem accepted_of_ready (hr : u.ready i = true) (j : UniIn R H P) :
    (u.next i).accepted j = (j.start.map DivUse.int).or (j.fpStart.map DivUse.fp) := by
  have hs : u.state = .idle ∧ i.start = none ∧ i.fpStart = none := by
    simpa [ready, and_assoc] using hr
  exact if_pos (by simp [UniDivider.next, hs])

theorem idle_of_accepted {op : DivUse R H P} (ha : u.accepted i = some op) : u.state = .idle := by
  by_contra h
  rw [accepted_eq_none h] at ha
  exact absurd ha (by simp)

/-- An operation goes on until its pulse. -/
theorem Holding.go {op : DivUse R H P} (h : u.Holding (some op)) :
    u.pulse i = none ∧ (u.next i).Holding (some op) ∨
      u.pulse i = some op.pulse ∧ (u.next i).state = .idle := by
  cases op with
  | int r => exact ServesInt.next h
  | fp r => exact ServesFp.next h

theorem Holding.busy {op : DivUse R H P} (h : u.Holding (some op)) : u.state ≠ .idle := by
  cases op with
  | int r => rcases h.state with hs | hs | hs <;> rw [hs] <;> decide
  | fp r => exact ServesFp.busy h

/-- **One cycle.**  What is held and what is accepted is what is pulsed for and what is held
after. -/
theorem Holding.next {l : Option (DivUse R H P)} (h : u.Holding l) :
    ∃ l', (u.next i).Holding l' ∧
      l.toList.map DivUse.pulse ++ (u.accepted i).toList.map DivUse.pulse =
        (u.pulse i).toList ++ l'.toList.map DivUse.pulse := by
  cases l with
  | none => exact ⟨_, Holding.accept h, by rw [pulse_of_idle h]; rfl⟩
  | some op =>
    rw [accepted_eq_none h.busy]
    rcases h.go (i := i) with ⟨hp, hn⟩ | ⟨hp, hn⟩
    · exact ⟨some op, hn, by rw [hp]; rfl⟩
    · exact ⟨none, hn, by rw [hp]; rfl⟩

theorem Holding.isNone {l : Option (DivUse R H P)} (h : u.Holding l) :
    l.isNone = decide (u.state = .idle) := by
  cases l with
  | none => exact (decide_eq_true (p := u.state = .idle) h).symm
  | some op => exact (decide_eq_false h.busy).symm

/-- The unit leaves the other states for one in which it is busy. -/
theorem busy_next (hb : u.state ≠ .idle) (hw : ¬ u.state.Waits) : (u.next i).state ≠ .idle := by
  cases hs : u.state with
  | idle => exact absurd hs hb
  | intWaitwb => exact absurd (.inl hs) hw
  | fpWaitwb => exact absurd (.inr hs) hw
  | intPack | fpNorm => simp [UniDivider.next, hs]
  | fpRound => cases hrs : u.rsqrt <;> simp [UniDivider.next, hs, hrs]
  | fpRsqrt2 =>
    simp only [UniDivider.next, hs, loadFp]
    split_ifs <;> decide
  | iter =>
    simp only [UniDivider.next, hs]
    split_ifs <;> simp

/-- **The measure falls** in every state but those that wait. -/
theorem measure_next (hb : u.state ≠ .idle) (hw : ¬ u.state.Waits) :
    (u.next i).measure < u.measure := by
  cases hs : u.state with
  | idle => exact absurd hs hb
  | intWaitwb => exact absurd (.inl hs) hw
  | fpWaitwb => exact absurd (.inr hs) hw
  | intPack => simp [measure, UniDivider.next, hs]
  | fpNorm => simp [measure, UniDivider.next, hs]
  | fpRound =>
    cases hrs : u.rsqrt <;> simp [measure, UniDivider.next, hs, hrs]
  | fpRsqrt2 =>
    have hlast : (BitVec.ofNat 6 (Fpu.lastStep false u.fmt) - 0).toNat ≤ 55 := by
      cases u.fmt <;> decide
    simp only [measure, UniDivider.next, hs, loadFp, Bool.false_eq_true, if_false, ite_self]
    cases i.flush <;>
      cases Fpu.opEarly false u.fmt (Fpu.one u.fmt) u.fpY ||
        Fpu.divDenorm false u.fmt (Fpu.one u.fmt) u.fpY <;>
      simp only [if_true, Bool.false_eq_true, if_false] <;> omega
  | iter =>
    by_cases hl : u.cnt = u.last
    · cases hf : i.flush <;> cases hfp : u.isFp <;>
        simp only [measure, UniDivider.next, hs, if_pos hl, hf, hfp, iterate, if_true,
          Bool.false_eq_true, if_false] <;> omega
    · have hstep : (u.last - (u.cnt + 1)).toNat + 1 = (u.last - u.cnt).toNat := by
        have hne : u.cnt.toNat ≠ u.last.toNat := fun h => hl (BitVec.eq_of_toNat_eq h)
        have hc := u.cnt.isLt
        have hla := u.last.isLt
        have hone : (1 : BitVec 6).toNat = 1 := rfl
        rw [BitVec.toNat_sub, BitVec.toNat_sub, BitVec.toNat_add, hone]
        omega
      cases hf : i.flush <;> cases hfp : u.isFp <;>
        simp only [measure, UniDivider.next, hs, if_neg hl, hf, hfp, iterate, if_true,
          Bool.false_eq_true, if_false] <;> omega

end Step

/-! ## Runs -/

section Run

variable {u : UniDivider R H P} (ins : ℕ → UniIn R H P)

/-- What has been accepted is what has been pulsed for, and what is held. -/
theorem holding_run (hu : u.state = .idle) (t : ℕ) :
    ∃ l, (u.run ins t).Holding l ∧
      (u.accepts ins t).map DivUse.pulse = u.pulses ins t ++ l.toList.map DivUse.pulse := by
  induction t with
  | zero => exact ⟨none, hu, rfl⟩
  | succ t ih =>
    obtain ⟨l, hl, hlist⟩ := ih
    obtain ⟨l', hl', hstep⟩ := hl.next (i := ins t)
    refine ⟨l', hl', ?_⟩
    rw [accepts, pulses, List.map_append, hlist, List.append_assoc, hstep, List.append_assoc]

/-- **Transactions are conserved.** -/
theorem conserved (hu : u.state = .idle) (t : ℕ) :
    ∃ l, (u.accepts ins (t + 1)).map DivUse.pulse = u.pulses ins t ++ l ∧
      l.length = if (u.run ins t).ready (ins t) then 0 else 1 := by
  obtain ⟨l, hl, hlist⟩ := holding_run ins hu t
  have hidle := hl.isNone
  refine ⟨l.toList.map DivUse.pulse ++ ((u.run ins t).accepted (ins t)).toList.map DivUse.pulse,
    ?_, ?_⟩
  · rw [accepts, List.map_append, hlist, List.append_assoc]
  · rw [List.length_append, List.length_map, List.length_map, Option.length_toList,
      Option.length_toList, ready, accepted]
    by_cases hs : (u.run ins t).state = .idle
    · rw [decide_eq_true hs, Option.isNone_iff_eq_none] at hidle
      rw [hidle, if_pos hs]
      cases (ins t).start <;> cases (ins t).fpStart <;> simp [hs]
    · rw [decide_eq_false hs] at hidle
      obtain ⟨op, rfl⟩ := Option.ne_none_iff_exists'.1 (Option.isNone_eq_false_iff.1 hidle |>
        Option.isSome_iff_ne_none.1)
      simp [hs]

/-- From its start to its pulse the unit holds an operation. -/
theorem held_run {n : ℕ} {op : DivUse R H P} (ha : u.accepted (ins 0) = some op)
    (hn : ∀ k < n, (u.run ins k).pulse (ins k) = none) (k : ℕ) (hk : k < n) :
    (u.run ins (k + 1)).Holding (some op) := by
  induction k with
  | zero =>
    have h := Holding.accept (i := ins 0) (idle_of_accepted ha)
    rw [ha] at h
    exact h
  | succ k ih =>
    rcases (ih (by omega)).go (i := ins (k + 1)) with ⟨-, h⟩ | ⟨hp, -⟩
    · exact h
    · rw [hn (k + 1) hk] at hp
      exact absurd hp (by simp)

/-- What the unit holds it has accepted, and it has not pulsed since. -/
theorem held_of_busy (hu : u.state = .idle) {t : ℕ} (hb : (u.run ins t).state ≠ .idle) :
    ∃ s < t, ∃ op, (u.run ins s).accepted (ins s) = some op ∧
      (∀ k, s ≤ k → k < t → (u.run ins k).pulse (ins k) = none) ∧
      (u.run ins t).Holding (some op) := by
  induction t with
  | zero => exact absurd hu hb
  | succ t ih =>
    by_cases hs : (u.run ins t).state = .idle
    · have hacc := Holding.accept (i := ins t) hs
      cases ha : (u.run ins t).accepted (ins t) with
      | none =>
        rw [ha] at hacc
        exact absurd hacc hb
      | some op =>
        rw [ha] at hacc
        refine ⟨t, Nat.lt_succ_self t, op, ha, fun k hk hkt => ?_, hacc⟩
        obtain rfl : k = t := by omega
        exact pulse_of_idle hs
    · obtain ⟨s, hst, op, ha, hn, hop⟩ := ih hs
      rcases hop.go (i := ins t) with ⟨hp, h⟩ | ⟨-, h⟩
      · refine ⟨s, by omega, op, ha, fun k hk hkt => ?_, h⟩
        rcases Nat.lt_succ_iff_lt_or_eq.1 hkt with hlt | rfl
        · exact hn k hk hlt
        · exact hp
      · exact absurd h hb

/-- The unit comes to wait for its slot. -/
theorem reaches_wait (ins : ℕ → UniIn R H P) (hb : u.state ≠ .idle) :
    ∃ n ≤ u.measure, (u.run ins n).state.Waits := by
  induction hm : u.measure using Nat.strong_induction_on generalizing u ins with
  | _ m ih =>
    subst hm
    by_cases hw : u.state.Waits
    · exact ⟨0, Nat.zero_le _, hw⟩
    · obtain ⟨n, hn, hwait⟩ := ih _ (measure_next hb hw) (fun t => ins (1 + t))
        (busy_next (i := ins 0) hb hw) rfl
      have hlt := measure_next (i := ins 0) hb hw
      refine ⟨1 + n, by omega, ?_⟩
      rw [run_add]
      exact hwait

/-- The slot that the unit waits for is taken. -/
def slotUsed (u : UniDivider R H P) (i : UniIn R H P) : Bool :=
  if u.state = .intWaitwb then i.wbSlotUsed else i.fpWbSlotUsed

/-- A unit that waits holds everything until its slot is free, and then pulses. -/
theorem waits_next {u : UniDivider R H P} {i : UniIn R H P} (hw : u.state.Waits) :
    if u.slotUsed i then u.pulse i = none ∧ u.next i = u
    else u.pulse i ≠ none ∧ (u.next i).state = .idle := by
  rcases hw with hs | hs
  · cases hu : i.wbSlotUsed <;>
      simp [slotUsed, pulse, complete, fpComplete, UniDivider.next, hs, hu]
  · cases hu : i.fpWbSlotUsed <;>
      simp [slotUsed, pulse, complete, fpComplete, UniDivider.next, hs, hu]

/-- The slot is that of what the unit holds. -/
theorem Holding.slotUsed_eq {op : DivUse R H P} (h : u.Holding (some op)) (hw : u.state.Waits) :
    u.slotUsed i = op.slotUsed i := by
  cases op with
  | int r =>
    have hs : u.state = .intWaitwb := by
      rcases h.state with hs | hs | hs <;> rw [hs] at hw ⊢ <;> revert hw <;> decide
    exact if_pos hs
  | fp r => exact if_neg h.not_intWaitwb

theorem measure_le (u : UniDivider R H P) : u.measure ≤ 137 := by
  have hlast := (u.last - u.cnt).isLt
  cases hs : u.state <;> cases hr : u.rsqrt <;> cases hf : u.isFp <;>
    simp [measure, hs, hr, hf] <;> omega

/-- Two operations that are in the unit in one cycle are one. -/
theorem accepted_unique {a b t : ℕ} {op op' : DivUse R H P}
    (ha : (u.run ins a).accepted (ins a) = some op) (hat : a < t)
    (hna : ∀ k, a ≤ k → k < t → (u.run ins k).pulse (ins k) = none)
    (hb : (u.run ins b).accepted (ins b) = some op') (hbt : b < t)
    (hnb : ∀ k, b ≤ k → k < t → (u.run ins k).pulse (ins k) = none) : a = b := by
  have key {a b : ℕ} {op op' : DivUse R H P} (ha : (u.run ins a).accepted (ins a) = some op)
      (hna : ∀ k, a ≤ k → k < t → (u.run ins k).pulse (ins k) = none) (hbt : b < t)
      (hb : (u.run ins b).accepted (ins b) = some op') : ¬ a < b := by
    intro hlt
    obtain ⟨d, rfl⟩ := Nat.exists_eq_add_of_lt hlt
    have h := held_run (u := u.run ins a) (fun k => ins (a + k)) (n := d + 1) ha (fun k hk => by
      rw [← run_add]
      exact hna (a + k) (by omega) (by omega)) d (Nat.lt_succ_self d)
    rw [← run_add] at h
    exact h.busy (idle_of_accepted hb)
  have h1 := key ha hna hbt hb
  have h2 := key hb hnb hat ha
  omega

/-- **An operation comes out**, at the latest in the first cycle, of those from some cycle on,
in which its slot is free. -/
theorem comes_out {op : DivUse R H P} (ha : u.accepted (ins 0) = some op) :
    ∃ n ≤ 138, ∀ t ≥ n, op.slotUsed (ins t) = false →
      ∃ k ≤ t, (∀ j < k, (u.run ins j).pulse (ins j) = none) ∧
        (u.run ins k).pulse (ins k) = some op.pulse := by
  have hheld {t : ℕ} (hn : ∀ k ≤ t, (u.run ins k).pulse (ins k) = none) :
      (u.run ins (t + 1)).Holding (some op) :=
    held_run ins ha (fun k hk => hn k (Nat.le_of_lt_succ hk)) t (Nat.lt_succ_self t)
  have hb : (u.run ins 1).state ≠ .idle := by
    refine (hheld (t := 0) fun k hk => ?_).busy
    rw [Nat.le_zero.1 hk]
    exact pulse_of_idle (idle_of_accepted ha)
  obtain ⟨n, hn, hwait⟩ := reaches_wait (fun t => ins (1 + t)) hb
  have hmeasure := measure_le (u.run ins 1)
  rw [← run_add] at hwait
  refine ⟨1 + n, by omega, fun t ht hslot => ?_⟩
  by_cases hex : ∃ k, k ≤ t ∧ (u.run ins k).pulse (ins k) ≠ none
  · -- the first pulse is that of the operation
    obtain ⟨hkt, hk⟩ := Nat.find_spec hex
    have hbefore (j : ℕ) (hj : j < Nat.find hex) : (u.run ins j).pulse (ins j) = none := by
      by_contra h
      exact Nat.find_min hex hj ⟨(Nat.le_of_lt hj).trans hkt, h⟩
    refine ⟨_, hkt, hbefore, ?_⟩
    generalize Nat.find hex = k at hk hbefore
    cases k with
    | zero => exact absurd (pulse_of_idle (idle_of_accepted ha)) hk
    | succ k =>
      rcases (hheld (t := k) fun j hj => hbefore j (by omega)).go (i := ins (k + 1)) with ⟨h, -⟩ | ⟨h, -⟩
      · exact absurd h hk
      · exact h
  · -- without one it waits until the slot is free
    exfalso
    have hnone (k : ℕ) (hk : k ≤ t) : (u.run ins k).pulse (ins k) = none := by
      by_contra h
      exact hex ⟨k, hk, h⟩
    have hwaits : (u.run ins t).state.Waits := by
      clear hslot
      induction t, ht using Nat.le_induction with
      | base => exact hwait
      | succ t ht ih =>
        have hw := ih (fun ⟨k, hk, h⟩ => hex ⟨k, by omega, h⟩) fun k hk => hnone k (by omega)
        have hnext := waits_next (i := ins t) hw
        split at hnext
        · show (UniDivider.next _ _).state.Waits
          rw [hnext.2]
          exact hw
        · exact absurd (hnone t (by omega)) hnext.1
    have hused : (u.run ins t).slotUsed (ins t) = true := by
      have hnext := waits_next (i := ins t) hwaits
      by_contra h
      rw [if_neg h] at hnext
      exact hnext.1 (hnone t le_rfl)
    obtain ⟨k, rfl⟩ := Nat.exists_eq_add_of_le' (by omega : 1 ≤ t)
    have hop := hheld (t := k) fun j hj => hnone j (by omega)
    rw [← hop.slotUsed_eq hwaits, hused] at hslot
    exact Bool.noConfusion hslot

end Run

/-! ## The results -/

section Results

variable {u : UniDivider R H P} {i : UniIn R H P} {ins : ℕ → UniIn R H P} {n : ℕ}

theorem complete_intSide (u : UniDivider R H P) (i : UniIn R H P) :
    u.intSide.complete i.wbSlotUsed = u.complete i := by
  unfold Divider.complete complete intSide
  cases u.state <;> rfl

theorem complete_fpSide (u : UniDivider R H P) (i : UniIn R H P) (j : DivIn)
    (hj : j.wbUsed = i.fpWbSlotUsed) : u.fpSide.complete j = u.fpComplete i := by
  unfold FpDivider.complete fpComplete fpSide
  rw [hj]
  cases u.state <;> rfl

/-- While it works on an integer divide, the unit pulses when that side completes. -/
theorem ServesInt.pulse_eq {r : IntReq R H} (h : u.ServesInt r) :
    u.pulse i =
      if u.intSide.complete i.wbSlotUsed then some (.int r.robPtr r.hiloPrfPtr) else none := by
  have hfp : u.fpComplete i = false := by
    rcases h.state with h | h | h <;> simp [fpComplete, h]
  rw [pulse, complete_intSide, hfp, h.robPtr, h.hiloPrfPtr, if_neg Bool.false_ne_true]

/-- While it works on a floating-point operation, the unit pulses when that side completes. -/
theorem ServesFp.pulse_eq {r : FpReq R P} (h : u.ServesFp r) :
    u.pulse i = if u.fpComplete i then some (.fp r.robPtr r.dstPtr) else none := by
  have hint : u.complete i = false := by simp [complete, h.not_intWaitwb]
  rw [pulse, hint, h.robPtr, h.dstPtr, if_neg Bool.false_ne_true]

theorem not_complete (h : u.pulse i = none) : u.complete i = false ∧ u.fpComplete i = false := by
  unfold pulse at h
  split_ifs at h with h1 h2
  exact ⟨eq_false_of_ne_true h1, eq_false_of_ne_true h2⟩

theorem accepted_int {r : IntReq R H} (ha : u.accepted i = some (.int r)) :
    u.state = .idle ∧ i.start = some r := by
  unfold accepted at ha
  split_ifs at ha with hs
  cases hq : i.start with
  | some r' =>
    rw [hq] at ha
    simp only [Option.map_some, Option.some_or, Option.some.injEq, DivUse.int.injEq] at ha
    exact ⟨hs, by rw [ha]⟩
  | none =>
    rw [hq] at ha
    cases i.fpStart <;> simp at ha

theorem accepted_fp {r : FpReq R P} (ha : u.accepted i = some (.fp r)) :
    u.state = .idle ∧ i.start = none ∧ i.fpStart = some r := by
  unfold accepted at ha
  split_ifs at ha with hs
  cases hq : i.start with
  | some r' =>
    rw [hq] at ha
    simp at ha
  | none =>
    rw [hq] at ha
    cases hp : i.fpStart with
    | none =>
      rw [hp] at ha
      simp at ha
    | some r' =>
      rw [hp] at ha
      simp only [Option.map_none, Option.map_some, Option.none_or, Option.some.injEq,
        DivUse.fp.injEq] at ha
      exact ⟨hs, rfl, by rw [ha]⟩

variable (ins) in
/-- **The result of an integer divide** that is not flushed. -/
theorem int_result {r : IntReq R H} (ha : u.accepted (ins 0) = some (.int r))
    (hn : ∀ k < n, (u.run ins k).pulse (ins k) = none)
    (hf : ∀ k < n, (ins k).flush = false) (hp : (u.run ins n).pulse (ins n) ≠ none) :
    (u.run ins n).y = Divider.settled r.srcA r.srcB r.is32b r.isSignedDiv := by
  obtain ⟨hs, hq⟩ := accepted_int ha
  have hpos : n ≠ 0 := by
    rintro rfl
    exact hp (pulse_of_idle hs)
  obtain ⟨m, rfl⟩ := Nat.exists_eq_succ_of_ne_zero hpos
  have hserves := held_run ins ha hn
  set used : ℕ → Bool := fun j => (ins (j + 1)).wbSlotUsed
  have hside (k : ℕ) (hk : k < m + 1) : (u.run ins (k + 1)).intSide =
      (Divider.start r.srcA r.srcB r.is32b r.isSignedDiv).run used k := by
    induction k with
    | zero =>
      have h1 : u.next (ins 0) = u.loadInt r := by simp only [UniDivider.next, hs, hq]
      rw [run, run, h1]
      rfl
    | succ k ih =>
      have h := hserves k (by omega)
      rw [run, intSide_next h.state h.isFp h.isSqrt, ih (by omega), hf (k + 1) hk,
        Divider.nextOrCut, Bool.false_and, if_neg Bool.false_ne_true]
      rfl
  have hat : (Divider.start r.srcA r.srcB r.is32b r.isSignedDiv).CompletesAt used m := by
    have hcomp (k : ℕ) (hk : k < m + 1) :
        ((Divider.start r.srcA r.srcB r.is32b r.isSignedDiv).run used k).complete (used k) =
          (u.run ins (k + 1)).complete (ins (k + 1)) := by
      rw [← hside k hk, complete_intSide]
    refine ⟨?_, fun j hj => ?_⟩
    · by_contra hc
      rw [hcomp m (by omega), ← complete_intSide] at hc
      exact hp ((hserves m (by omega)).pulse_eq.trans (if_neg hc))
    · rw [hcomp j (by omega)]
      exact (not_complete (hn (j + 1) (by omega))).1
  have hy := Divider.y_of_completes hat
  rw [← hside m (by omega)] at hy
  exact hy

/-- A floating-point divider that completes has the result. -/
theorem divSpec_of_completes {d : FpDivider} {r : DivReq} {js : ℕ → DivIn} (hd : d.state = .idle)
    (hr : (js 0).start = some r) (hf : ∀ t, (js t).flush = false)
    (hc : (d.run js n).complete (js n) = true)
    (hbefore : ∀ k < n, (d.run js k).complete (js k) = false) : DivSpec r (d.run js n).out := by
  obtain ⟨m, hm, hdone⟩ := Fpu.divider_correct d r js hd hr hf
  have hge : m ≤ n := by
    by_contra h
    rw [hm n (by omega)] at hc
    exact Bool.false_ne_true hc
  obtain ⟨t, rfl⟩ := Nat.exists_eq_add_of_le hge
  -- every slot since the result was there has been taken
  have hused (s : ℕ) (hs : s < t) : (js (m + s)).wbUsed = true := by
    induction s using Nat.strong_induction_on with
    | _ s ih =>
      have h := (hdone s fun k hk => ih k hk (by omega)).1
      rw [hbefore (m + s) (by omega)] at h
      simpa using h.symm
  exact (hdone t hused).2

variable (ins) in
/-- **The result of a floating-point operation** that is not flushed. -/
theorem fp_result {r : FpReq R P} (ha : u.accepted (ins 0) = some (.fp r))
    (hn : ∀ k < n, (u.run ins k).pulse (ins k) = none)
    (hf : ∀ k < n, (ins k).flush = false) (hp : (u.run ins n).pulse (ins n) ≠ none) :
    DivSpec r.req (u.run ins n).fpOut := by
  obtain ⟨hs, hq, hr⟩ := accepted_fp ha
  have hserves := held_run ins ha hn
  set js : ℕ → DivIn := fun k => ⟨(ins k).fpStart.map FpReq.req, false, (ins k).fpWbSlotUsed⟩
  have hside (k : ℕ) (hk : k ≤ n) : (u.run ins k).fpSide = u.fpSide.run js k := by
    induction k with
    | zero => rfl
    | succ k ih =>
      have hfl := hf k hk
      rcases k with - | k
      · have hne (st : UniState) (hst : UniState.idle ≠ st) : u.state ≠ st := hs ▸ hst
        show (u.next (ins 0)).fpSide = u.fpSide.next (js 0)
        rw [fpSide_next (fun _ => hq) (fun h => absurd h (hne .iter (by decide)))
          (hne .intPack (by decide)) (hne .intWaitwb (by decide)), hfl]
      · have h := hserves k (by omega)
        rw [run, FpDivider.run, ← ih (by omega), fpSide_next (fun h' => absurd h' h.busy)
          (fun _ => h.isFp) h.not_intPack h.not_intWaitwb, hfl]
  have hcomp (k : ℕ) (hk : k ≤ n) :
      (u.fpSide.run js k).complete (js k) = (u.run ins k).fpComplete (ins k) := by
    rw [← hside k hk, complete_fpSide _ (ins k) _ rfl]
  have hpos : n ≠ 0 := by
    rintro rfl
    exact hp (pulse_of_idle hs)
  obtain ⟨m, rfl⟩ := Nat.exists_eq_succ_of_ne_zero hpos
  have hlast := hserves m (by omega)
  have hout : (u.run ins (m + 1)).fpOut = (u.fpSide.run js (m + 1)).out := by
    rw [← hside (m + 1) le_rfl]
    rfl
  rw [hout]
  refine divSpec_of_completes (by simp [fpSide, hs]) (by simp [js, hr]) (fun _ => rfl) ?_
    fun k hk => ?_
  · by_contra hc
    rw [hcomp _ le_rfl] at hc
    exact hp (hlast.pulse_eq.trans (if_neg hc))
  · rw [hcomp k (by omega)]
    exact (not_complete (hn k hk)).2

variable (ins) in
/-- **An integer divide has nothing of what was there before**, flushed or not: its outputs
are the same from any two units at rest. -/
theorem int_private {u' : UniDivider R H P} {r : IntReq R H}
    (ha : u.accepted (ins 0) = some (.int r)) (ha' : u'.accepted (ins 0) = some (.int r))
    (hn : ∀ k ≤ n, (u.run ins k).pulse (ins k) = none) :
    (u.run ins (n + 1)).pulse (ins (n + 1)) = (u'.run ins (n + 1)).pulse (ins (n + 1)) ∧
      (u.run ins (n + 1)).y = (u'.run ins (n + 1)).y := by
  obtain ⟨hs, hq⟩ := accepted_int ha
  obtain ⟨hs', -⟩ := accepted_int ha'
  have hserves := held_run ins ha fun k hk => hn k (Nat.le_of_lt_succ hk)
  have hsame (k : ℕ) (hk : k ≤ n) : (u'.run ins (k + 1)).ServesInt r ∧
      (u.run ins (k + 1)).intSide = (u'.run ins (k + 1)).intSide := by
    induction k with
    | zero =>
      have h := Holding.accept (i := ins 0) hs'
      rw [ha'] at h
      refine ⟨h, ?_⟩
      have h1 : u.next (ins 0) = u.loadInt r := by simp only [UniDivider.next, hs, hq]
      have h2 : u'.next (ins 0) = u'.loadInt r := by simp only [UniDivider.next, hs', hq]
      rw [run, run, run, run, h1, h2]
      rfl
    | succ k ih =>
      obtain ⟨h', heq⟩ := ih (by omega)
      have h := hserves k (by omega)
      have hc : (u'.run ins (k + 1)).pulse (ins (k + 1)) = none := by
        rw [h'.pulse_eq, ← heq, ← h.pulse_eq]
        exact hn (k + 1) hk
      refine ⟨?_, ?_⟩
      · rcases h'.next (i := ins (k + 1)) with ⟨-, hnext⟩ | ⟨hp, -⟩
        · exact hnext
        · rw [hc] at hp
          exact absurd hp (by simp)
      · show ((u.run ins (k + 1)).next (ins (k + 1))).intSide =
          ((u'.run ins (k + 1)).next (ins (k + 1))).intSide
        rw [intSide_next h.state h.isFp h.isSqrt, intSide_next h'.state h'.isFp h'.isSqrt, heq]
  obtain ⟨h', heq⟩ := hsame n le_rfl
  refine ⟨by rw [(hserves n (by omega)).pulse_eq, h'.pulse_eq, heq], ?_⟩
  show (u.run ins (n + 1)).intSide.y = (u'.run ins (n + 1)).intSide.y
  rw [heq]

end Results

/-! ## The law of the divider -/

/-- What holds of a run. -/
structure Law (u : UniDivider R H P) (ins : ℕ → UniIn R H P) : Prop where
  /-- A start that is made after the unit has reported ready is accepted; of two, the integer
  divide. -/
  ready : ∀ t, (u.run ins t).ready (ins t) = true →
    (u.run ins (t + 1)).accepted (ins (t + 1)) =
      ((ins (t + 1)).start.map DivUse.int).or ((ins (t + 1)).fpStart.map DivUse.fp)
  /-- The pulses are those of the accepted operations, in their order, but for one if the unit
  is not ready. -/
  conserved : ∀ t, ∃ l, (u.accepts ins (t + 1)).map DivUse.pulse = u.pulses ins t ++ l ∧
    l.length = if (u.run ins t).ready (ins t) then 0 else 1
  /-- A pulse is that of the operation. -/
  own : ∀ s n op, (u.run ins s).accepted (ins s) = some op →
    (∀ k < n, (u.run ins (s + k)).pulse (ins (s + k)) = none) →
    ∀ p, (u.run ins (s + n)).pulse (ins (s + n)) = some p → p = op.pulse
  /-- It is raised as soon as the slot of its port is free. -/
  slot : ∀ t, (u.run ins t).state.Waits →
    if (u.run ins t).slotUsed (ins t)
    then (u.run ins t).pulse (ins t) = none ∧ u.run ins (t + 1) = u.run ins t
    else (u.run ins t).pulse (ins t) ≠ none ∧ (u.run ins (t + 1)).state = .idle
  pulse_waits : ∀ t, (u.run ins t).pulse (ins t) ≠ none →
    (u.run ins t).state.Waits ∧ (u.run ins t).slotUsed (ins t) = false
  /-- The unit is busy in no other state for long. -/
  measure : ∀ t, (u.run ins t).state ≠ .idle → ¬ (u.run ins t).state.Waits →
    (u.run ins (t + 1)).measure < (u.run ins t).measure
  reaches_wait : ∀ t, (u.run ins t).state ≠ .idle →
    ∃ n ≤ (u.run ins t).measure, (u.run ins (t + n)).state.Waits
  /-- An operation that is not flushed comes out with its result. -/
  int_result : ∀ s n r, (u.run ins s).accepted (ins s) = some (.int r) →
    (∀ k < n, (u.run ins (s + k)).pulse (ins (s + k)) = none) →
    (∀ k < n, (ins (s + k)).flush = false) → (u.run ins (s + n)).pulse (ins (s + n)) ≠ none →
    (u.run ins (s + n)).y = Divider.settled r.srcA r.srcB r.is32b r.isSignedDiv
  fp_result : ∀ s n r, (u.run ins s).accepted (ins s) = some (.fp r) →
    (∀ k < n, (u.run ins (s + k)).pulse (ins (s + k)) = none) →
    (∀ k < n, (ins (s + k)).flush = false) → (u.run ins (s + n)).pulse (ins (s + n)) ≠ none →
    DivSpec r.req (u.run ins (s + n)).fpOut
  /-- An integer divide, flushed or not, comes out as from any unit at rest. -/
  int_private : ∀ (v : UniDivider R H P) s n r, v.state = .idle →
    (u.run ins s).accepted (ins s) = some (.int r) →
    (∀ k ≤ n, (u.run ins (s + k)).pulse (ins (s + k)) = none) →
    (u.run ins (s + (n + 1))).y = (v.run (fun k => ins (s + k)) (n + 1)).y

/-- **The law of the divider.**  After a reset it holds of every run, for whatever is started
and flushed, and whatever slots are free. -/
theorem divider_law (u : UniDivider R H P) (ins : ℕ → UniIn R H P) :
    Law { u with state := .idle } ins where
  ready t hr := accepted_of_ready hr _
  conserved := UniDivider.conserved ins rfl
  own s n op ha hn p hp := by
    simp only [run_add] at hn hp
    cases n with
    | zero =>
      rw [run, pulse_of_idle (idle_of_accepted ha)] at hp
      exact absurd hp (by simp)
    | succ n =>
      have h := held_run (fun k => ins (s + k)) ha hn n (Nat.lt_succ_self n)
      rcases h.go (i := ins (s + (n + 1))) with ⟨h, -⟩ | ⟨h, -⟩
      · rw [h] at hp
        exact absurd hp (by simp)
      · rw [h] at hp
        exact (Option.some.inj hp).symm
  slot t hw := waits_next hw
  pulse_waits t hp := by
    generalize ({ u with state := .idle } : UniDivider R H P).run ins t = v at hp ⊢
    unfold pulse complete fpComplete at hp
    cases hs : v.state <;> simp [hs] at hp <;> simp [UniState.Waits, slotUsed, hs, hp]
  measure t := measure_next
  reaches_wait t hb := by
    obtain ⟨n, hn, hw⟩ := UniDivider.reaches_wait (fun k => ins (t + k)) hb
    exact ⟨n, hn, by rwa [run_add]⟩
  int_result s n r ha hn hf hp := by
    simp only [run_add] at hn hp ⊢
    exact UniDivider.int_result (fun k => ins (s + k)) ha hn hf hp
  fp_result s n r ha hn hf hp := by
    simp only [run_add] at hn hp ⊢
    exact UniDivider.fp_result (fun k => ins (s + k)) ha hn hf hp
  int_private v s n r hv ha hn := by
    simp only [run_add _ _ s] at hn ⊢
    refine (UniDivider.int_private (fun k => ins (s + k)) ha ?_ hn).2
    rw [accepted, if_pos hv]
    show ((ins s).start.map _).or _ = _
    rw [(accepted_int ha).2]
    rfl

/-- A unit that has just been reset. -/
def afterReset : UniDivider ℕ ℕ ℕ :=
  { state := .idle, rem := 0, q := 0, opb := 0, src := 0, cnt := 0, last := 0, isFp := false
    isSqrt := false, robPtr := 0, hiloPrfPtr := 0, isSigned := false, sign := false
    remSign := false, is32b := false, fpDst := 0, rm := .nearest, fmt := false, fpSign := false
    ebase := 0, special := false, earlyY := 0, inv := false, dz := false, inden := false
    rsqrt := false, ph1Denorm := false, ph1 := FpDivider.noFlags
    sig := ⟨0, false, false, false⟩, fpY := 0, fpFflags := FpDivider.noFlags, fpDenorm := false }

/-- One by zero, in double precision. -/
def byZero (t : ℕ) : UniIn ℕ ℕ ℕ :=
  { start := none, flush := false, wbSlotUsed := false, fpWbSlotUsed := false
    fpStart := if t = 0 then some ⟨⟨.dpDiv, 0x3ff0000000000000#64, 0, .nearest⟩, 1, 1⟩ else none }

/-- Six by two, flushed as it starts. -/
def flushed (t : ℕ) : UniIn ℕ ℕ ℕ :=
  { start := none, flush := true, wbSlotUsed := false, fpWbSlotUsed := false
    fpStart :=
      if t = 0 then some ⟨⟨.dpDiv, 0x4018000000000000#64, 0x4000000000000000#64, .nearest⟩, 2, 2⟩
      else none }

/-- A flushed floating-point operation comes out with the result and the flags that are there:
here with the division by zero of the one before. -/
theorem flushed_inherits :
    ¬ ∀ (u v : UniDivider ℕ ℕ ℕ) (ins : ℕ → UniIn ℕ ℕ ℕ) (n : ℕ) (r : FpReq ℕ ℕ),
      u.state = .idle → v.state = .idle → u.accepted (ins 0) = some (.fp r) →
      (∀ k < n, (u.run ins k).pulse (ins k) = none) → (u.run ins n).pulse (ins n) ≠ none →
      (u.run ins n).fpOut = (v.run ins n).fpOut := by
  intro h
  have heq := h (afterReset.run byZero 3) afterReset flushed 1
    ⟨⟨.dpDiv, 0x4018000000000000#64, 0x4000000000000000#64, .nearest⟩, 2, 2⟩
    (by decide +kernel) rfl rfl (fun k hk => ?_) (by decide +kernel)
  · have hz := congrArg (fun o => o.fflags.z) heq
    exact absurd hz (by decide +kernel)
  · obtain rfl : k = 0 := by omega
    exact pulse_of_idle (by decide +kernel)

end UniDivider

end Exec

end R9999
