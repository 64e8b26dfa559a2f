import R9999.Core.Decode

/-!
# The groups of a fetch

What `l1i.sv` pushes into the fetch queue when the line of an access hits: one instruction,
or two.  A pair ends before the first branch that is predicted taken, or with it where that
branch is direct.  The speculative history takes at most one bit in the cycle.

The words of the line, what the predictor says for each of them and the targets of the
returns and of the other indirect jumps are inputs.
-/

namespace R9999

namespace Frontend

open Core (Uop Insn bswap32 field predecode decodeSlot)

/-- A word of the instruction memory, with what `decode_mips` makes of it at an address and
with a predicted target.  An operation that only raises an exception may have any fields. -/
structure Word where
  raw : BitVec 32
  decode : BitVec 64 → BitVec 64 → Uop
  own : ∀ pc t, (decode pc t).op ≠ .irq ∧ (decode pc t).op.isXflush = false
  branch : ∀ pc t, (decode pc t).op.foldFaults = false → ∃ cu1,
    (decodeSlot cu1 (bswap32 raw)).raises = false ∧
      (decode pc t).isBr = (decodeSlot cu1 (bswap32 raw)).hasDelaySlot
  jump : ∀ pc t, (decode pc t).op = .j → field (bswap32 raw) 26 6 = 2
  slot : ∀ pc t, (decode pc t).isBr = true → (decode pc t).hasDelaySlot = true

/-- The operation of an instruction whose fetch faulted. -/
structure FaultUop where
  uop : Uop
  own : uop.op ≠ .irq ∧ uop.op.isXflush = false
  faults : uop.op.foldFaults = true
  slot : uop.isBr = true → uop.hasDelaySlot = true

/-- An entry of the fetch queue (`insn_fetch_t`).  `missed` is `misaligned`, `tlb_miss` or
`tlb_invalid`. -/
structure FetchInsn where
  insn : Insn
  pred : Bool
  missed : Bool
  branch : insn.uop.op.foldFaults = false → insn.uop.isBr = (insn.isBranch && !missed)
  jump : insn.uop.op = .j → pred = true
  slot : insn.uop.isBr = true → insn.uop.hasDelaySlot = true

/-- The bits that the branches of the predicted path add to the history. -/
def FetchInsn.bits (a : FetchInsn) : List Bool :=
  if a.insn.isBranch && !a.missed then [a.pred] else []

/-- What the arrays and the predictor say about the line of an access. -/
structure Line where
  word : Fin 4 → Word
  /-- `t_pred_vec`. -/
  predVec : Fin 4 → Bool
  /-- `r_spec_return_stack[t_next_spec_rs_tos]`. -/
  returnTo : BitVec 64
  /-- `t_itt_hit ? r_itt_out : r_btb_pc`. -/
  indirect : BitVec 64
  /-- `r_bad_va`. -/
  badVa : Bool
  /-- What decode makes of a fetch that faults. -/
  fault : FaultUop

namespace Line

variable (l : Line) (pc : BitVec 64)

/-- `t_insn_idx`. -/
def idx : Fin 4 := (pc.extractLsb' 2 2).toFin

/-- `select_pd`. -/
def pd (k : Fin 4) : BitVec 4 := predecode (l.word k).raw

/-- `select_cl32`. -/
def data (k : Fin 4) : BitVec 32 := bswap32 (l.word k).raw

/-- `t_tcb0` to `t_tcb3`: the word ends a group. -/
def tcb (k : Fin 4) : Bool := !(decide (l.pd k = 1) && !l.predVec k || decide (l.pd k = 0))

/-- `t_spec_branch_marker`: bit `j`, with the end of the line behind the last word. -/
def marker (j : Nat) : Bool :=
  if h : (idx pc).val + j < 4 then l.tcb ⟨(idx pc).val + j, h⟩ else decide ((idx pc).val + j = 4)

/-- `t_first_branch`. -/
def firstBranch : Nat :=
  if l.marker pc 0 then 0
  else if l.marker pc 1 then 1
  else if l.marker pc 2 then 2
  else if l.marker pc 3 then 3
  else if l.marker pc 4 then 4
  else 7

/-- The target of a branch at an address. -/
def branchTarget (at_ : BitVec 64) (insn : BitVec 32) : BitVec 64 :=
  at_ + 4 + ((insn.setWidth 16).signExtend 64 <<< 2)

/-- The target of a `J` or a `JAL` at an address. -/
def jumpTarget (at_ : BitVec 64) (insn : BitVec 32) : BitVec 64 :=
  at_.extractLsb' 28 36 ++ insn.setWidth 26 ++ 0#2

/-- `t_take_br`, which is `t_is_cflow`: the first instruction is predicted taken. -/
def takeBr : Bool :=
  let k := idx pc
  let pd := l.pd k
  if pd = 5 ∨ pd = 3 ∨ pd = 8 ∨ pd = 2 then true
  else if pd = 9 then
    l.predVec k || ((l.data k).getLsbD 16 && decide (field (l.data k) 21 5 = 0))
  else if pd = 1 then l.predVec k
  else decide (pd = 7 ∨ pd = 4 ∨ pd = 6)

/-- The target of the first instruction. -/
def target : BitVec 64 :=
  let k := idx pc
  let pd := l.pd k
  if pd = 5 ∨ pd = 3 then jumpTarget pc (l.data k)
  else if pd = 7 then l.returnTo
  else if pd = 4 ∨ pd = 6 then l.indirect
  else branchTarget pc (l.data k)

/-- `t_gb_pd1`. -/
def pd1 : BitVec 4 := l.pd (idx pc + 1)

/-- `t_gb_target1`. -/
def target1 : BitVec 64 :=
  if l.pd1 pc = 3 then jumpTarget (pc + 4) (l.data (idx pc + 1))
  else branchTarget (pc + 4) (l.data (idx pc + 1))

variable (slot full2 : Bool)

/-- `t_gb_ok1`. -/
def gbOk1 : Bool :=
  decide (l.firstBranch pc = 1) && decide (idx pc ≤ 2) && !full2 &&
    (decide (l.pd1 pc = 1) || decide (l.pd1 pc = 2) || decide (l.pd1 pc = 3) ||
      decide (l.pd1 pc = 8))

/-- `t_is_cflow || r_delay_slot`: the first instruction is pushed alone. -/
def alone : Bool := l.takeBr pc || slot

/-- `t_gb_take1`: a pair that ends with a taken branch. -/
def gbTake1 : Bool := !l.alone pc slot && l.gbOk1 pc full2

/-- `t_push_insn2`. -/
def two : Bool :=
  !l.alone pc slot && (l.gbOk1 pc full2 || (decide (2 ≤ l.firstBranch pc) && !full2))

/-- `n_pc`. -/
def nextPc (rPc : BitVec 64) : BitVec 64 :=
  if l.takeBr pc then l.target pc
  else if l.gbTake1 pc slot full2 then l.target1 pc
  else if l.two pc slot full2 then pc + 12
  else rPc + 4

/-- `t_update_spec_hist`. -/
def updates : Bool := decide (l.pd (idx pc) ≠ 0) || l.gbTake1 pc slot full2

/-- The bit that the history takes. -/
def bit : Bool := l.takeBr pc || l.gbTake1 pc slot full2

/-- `n_delay_slot`. -/
def slotNext : Bool := !slot && (l.takeBr pc || l.gbTake1 pc slot full2)

/-- A branch of the predicted path is predecoded as one. -/
theorem pd_branch {k : Fin 4} {a t : BitVec 64}
    (h : ((l.word k).decode a t).op.foldFaults = false) :
    ((l.word k).decode a t).isBr = decide (l.pd k ≠ 0) := by
  obtain ⟨cu1, hr, hbr⟩ := (l.word k).branch a t h
  have hiff := Core.predecode_agrees cu1 (l.word k).raw hr
  rw [hbr, Bool.eq_iff_iff, decide_eq_true_iff]
  exact hiff.symm

/-- A `J` is predecoded as one. -/
theorem pd_jump {k : Fin 4} {a t : BitVec 64} (h : ((l.word k).decode a t).op = .j) :
    l.pd k = 3 := by
  have hop := (l.word k).jump a t h
  simp [pd, predecode, hop]

/-- A word that does not end a group is no jump. -/
theorem pd_of_tcb {k : Fin 4} (h : l.tcb k = false) : l.pd k = 0 ∨ l.pd k = 1 := by
  simp only [tcb, Bool.not_eq_false', Bool.or_eq_true, Bool.and_eq_true, decide_eq_true_eq] at h
  obtain ⟨h, -⟩ | h := h
  · exact .inr h
  · exact .inl h

/-- The first instruction of a group as it is pushed (`t_insn`). -/
def first (rPc : BitVec 64) : FetchInsn where
  insn :=
    { uop := (l.word (idx pc)).decode pc (l.nextPc pc slot full2 rPc)
      isBranch := decide (l.pd (idx pc) ≠ 0)
      fault := l.badVa
      own := (l.word (idx pc)).own _ _ }
  pred := l.takeBr pc
  missed := false
  branch h := by simpa using l.pd_branch h
  jump h := by simp [takeBr, l.pd_jump h]
  slot h := (l.word (idx pc)).slot _ _ h

/-- Without a taken branch in the second place, the second word of a pair ends no group. -/
theorem second_plain (h2 : l.two pc slot full2 = true) (h1 : l.gbTake1 pc slot full2 = false) :
    l.tcb (idx pc + 1) = false := by
  simp only [two, Bool.and_eq_true, Bool.or_eq_true, decide_eq_true_eq] at h2
  obtain ⟨halone, hpair⟩ := h2
  have hok : l.gbOk1 pc full2 = false := by simpa [gbTake1, halone] using h1
  obtain hpair | ⟨hfirst, -⟩ := hpair
  · rw [hok] at hpair
    cases hpair
  have hm : l.marker pc 1 = false := by
    by_contra hm
    have h : l.firstBranch pc ≤ 1 := by
      unfold firstBranch
      split
      · exact Nat.zero_le 1
      · rw [if_pos (by simpa using hm)]
    omega
  -- the line does not end behind the first word
  unfold marker at hm
  split at hm
  next hlt =>
    have hk : idx pc + 1 = ⟨(idx pc).val + 1, hlt⟩ := by
      apply Fin.ext
      rw [Fin.val_add]
      exact Nat.mod_eq_of_lt hlt
    rw [hk]
    exact hm
  next hge =>
    simp only [decide_eq_false_iff_not] at hm
    omega

/-- The second instruction of a pair (`t_insn2`). -/
def second (rPc : BitVec 64) (h2 : l.two pc slot full2 = true) : FetchInsn where
  insn :=
    { uop := (l.word (idx pc + 1)).decode (pc + 4)
        (if l.gbTake1 pc slot full2 then l.nextPc pc slot full2 rPc else 0)
      isBranch := decide (l.pd (idx pc + 1) ≠ 0)
      fault := false
      own := (l.word (idx pc + 1)).own _ _ }
  pred := l.gbTake1 pc slot full2
  missed := false
  branch h := by simpa using l.pd_branch h
  jump h := by
    have h3 := l.pd_jump h
    by_contra h1
    obtain hpd | hpd := l.pd_of_tcb (l.second_plain pc slot full2 h2 (by simpa using h1))
    · rw [hpd] at h3
      cases h3
    · rw [hpd] at h3
      cases h3
  slot h := (l.word (idx pc + 1)).slot _ _ h

/-- The instructions that are pushed. -/
def pushes (rPc : BitVec 64) : List FetchInsn :=
  if h2 : l.two pc slot full2 = true then
    [l.first pc slot full2 rPc, l.second pc slot full2 rPc h2]
  else [l.first pc slot full2 rPc]

/-- The instruction that is pushed when the fetch faults. -/
def missedInsn : FetchInsn where
  insn :=
    { uop := l.fault.uop
      isBranch := decide (l.pd (idx pc) ≠ 0)
      fault := true
      own := l.fault.own }
  pred := false
  missed := true
  branch h := by
    rw [l.fault.faults] at h
    cases h
  jump h := by
    have hf := l.fault.faults
    rw [h] at hf
    cases hf
  slot := l.fault.slot

/-- The history takes no bit for a branch of the pair: the second instruction is a branch
that is predicted not taken, or both are branches. -/
def skips : Bool :=
  l.two pc slot full2 && decide (l.pd1 pc ≠ 0) &&
    (decide (l.pd (idx pc) ≠ 0) || !l.gbTake1 pc slot full2)

/-- The bits that the history takes in the cycle. -/
def taken : List Bool := if l.updates pc slot full2 then [l.bit pc slot full2] else []

variable {l pc slot full2}

theorem alone_of_takeBr (h : l.takeBr pc = true) : l.two pc slot full2 = false := by
  simp [two, alone, h]

theorem gbTake1_two (h : l.gbTake1 pc slot full2 = true) :
    l.two pc slot full2 = true ∧ l.takeBr pc = false ∧ l.pd1 pc ≠ 0 := by
  simp only [gbTake1, alone, Bool.and_eq_true, Bool.not_eq_true', Bool.or_eq_false_iff] at h
  obtain ⟨⟨htake, hslot⟩, hok⟩ := h
  refine ⟨by simp [two, alone, htake, hslot, hok], htake, ?_⟩
  intro hpd
  simp [gbOk1, hpd] at hok

/-- A first instruction that is no branch is not predicted taken. -/
theorem takeBr_branch (h : l.takeBr pc = true) : l.pd (idx pc) ≠ 0 := by
  intro hpd
  simp [takeBr, hpd] at h

/-- The history takes the bits of the instructions pushed, but where it skips one. -/
theorem taken_eq_iff {rPc : BitVec 64} :
    l.taken pc slot full2 = (l.pushes pc slot full2 rPc).flatMap FetchInsn.bits ↔
      l.skips pc slot full2 = false := by
  have hfirst : (l.first pc slot full2 rPc).bits =
      if l.pd (idx pc) ≠ 0 then [l.takeBr pc] else [] := by
    simp [FetchInsn.bits, first]
  cases h2 : l.two pc slot full2 with
  | false =>
    have h1 : l.gbTake1 pc slot full2 = false := by
      by_contra h1
      rw [(gbTake1_two (by simpa using h1)).1] at h2
      cases h2
    simp [pushes, h2, skips, taken, updates, bit, h1, hfirst]
  | true =>
    have hsecond : (l.second pc slot full2 rPc h2).bits =
        if l.pd1 pc ≠ 0 then [l.gbTake1 pc slot full2] else [] := by
      by_cases hpd1 : l.pd (idx pc + 1) = 0#4 <;> simp [FetchInsn.bits, second, pd1, hpd1]
    have htake : l.takeBr pc = false := by
      by_contra ht
      rw [alone_of_takeBr (by simpa using ht)] at h2
      cases h2
    cases h1 : l.gbTake1 pc slot full2 with
    | false =>
      by_cases hpd1 : l.pd1 pc = 0#4 <;> by_cases hpd : l.pd (idx pc) = 0#4 <;>
        simp [pushes, h2, skips, taken, updates, bit, h1, hfirst, hsecond, htake, hpd1, hpd]
    | true =>
      have hpd1 : ¬ l.pd1 pc = 0#4 := (gbTake1_two h1).2.2
      by_cases hpd : l.pd (idx pc) = 0#4 <;>
        simp [pushes, h2, skips, taken, updates, bit, h1, hfirst, hsecond, htake, hpd1, hpd]

end Line

end Frontend

end R9999
