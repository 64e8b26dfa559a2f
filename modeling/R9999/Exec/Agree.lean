import R9999.Exec.Slot
import R9999.Iss.DelaySlot

/-!
# The core and the interpreter, instruction by instruction

One call of `execMips` against what the core retires, for every word that the integer unit
decodes and every delay slot.  They come to the same registers, pc and exception exactly
when `AgreeOk` holds, which the theorem at the end says.  What it leaves out are the
multiplies and divides of registers that are not words, the instructions that the
interpreter does not gate or does not know, a return address written after the slot, an
exception of the slot with Status.EXL set, and J and JAL in the last word of a region.
-/

namespace R9999

namespace Exec

open Iss (Word State Effect Insn Fpu Cpr0 Jump Memory raiseGeneral srExl slotEntry slotExit
  exlRises runJump runJump_eq)

section Fetch

variable {s : State} {i : Word} {d : BitVec 5} {v : BitVec 64}

theorem fetched_zero (s : State) : (fetched s).gpr 0#5 = 0 := by
  show Function.update s.gpr 0#5 0 0#5 = 0
  rw [Function.update_self]

theorem fetched_setGpr (hd : d ≠ 0#5) : fetched (s.setGpr d v) = (fetched s).setGpr d v := by
  have hcomm : Function.update (Function.update s.gpr d v) 0#5 0 =
      Function.update (Function.update s.gpr 0#5 0) d v := Function.update_comm hd _ _ _
  show { s with gpr := Function.update (Function.update s.gpr d v) 0#5 0, tlbFault := false } = _
  rw [hcomm]
  rfl

/-- What a fetch looks at. -/
structure SameView (s s' : State) : Prop where
  pc : s'.pc = s.pc
  cpr0 : s'.cpr0 = s.cpr0
  cpr0_64 : s'.cpr0_64 = s.cpr0_64
  tlb : s'.tlb = s.tlb
  mem : s'.mem = s.mem
  tlbFault : s'.tlbFault = s.tlbFault

theorem raiseTlb_fault (s : State) (va : BitVec 64) (code : BitVec 32)
    (isRefill isXtlb : Bool) : (Iss.raiseTlb s va code isRefill isXtlb).tlbFault = true := rfl

theorem camTranslate_same {s s' : State} (h : SameView s s') (g : Iss.MicroTlb)
    (va : BitVec 64) :
    (Iss.camTranslate g s' va .fetch).1 = (Iss.camTranslate g s va .fetch).1 ∧
      (Iss.camTranslate g s' va .fetch).2.1.tlbFault =
        (Iss.camTranslate g s va .fetch).2.1.tlbFault := by
  unfold Iss.camTranslate
  rw [h.tlb, h.cpr0_64]
  dsimp only
  cases Iss.tlbSearch s.tlb va (s.cpr0_64 Cpr0.entryHi &&& 0xff) with
  | none =>
    dsimp only
    rw [raiseTlb_fault, raiseTlb_fault]
    exact ⟨rfl, rfl⟩
  | some e =>
    simp only [reduceCtorEq, false_and, if_false]
    split_ifs
    · dsimp only
      rw [raiseTlb_fault, raiseTlb_fault]
      exact ⟨rfl, rfl⟩
    · exact ⟨rfl, h.tlbFault⟩

theorem translate_same {s s' : State} (h : SameView s s') (va : BitVec 64) :
    (Iss.translate s' va .fetch).1 = (Iss.translate s va .fetch).1 ∧
      (Iss.translate s' va .fetch).2.tlbFault = (Iss.translate s va .fetch).2.tlbFault := by
  have hmode : Iss.is64bAddrMode s' = Iss.is64bAddrMode s := by
    unfold Iss.is64bAddrMode State.srHas
    rw [h.cpr0]
  unfold Iss.translate Iss.vaTranslate
  rw [hmode]
  simp only [reduceCtorEq, if_false, Bool.true_eq_false, false_and]
  split
  · exact ⟨rfl, h.tlbFault⟩
  · exact camTranslate_same h _ _

/-- A fetch does not see the general registers. -/
theorem fetches_same {s s' : State} (h : SameView (fetched s) (fetched s')) (hf : Fetches s i) :
    Fetches s' i := by
  have htranslate := translate_same h s.pc
  have hpc : s'.pc = s.pc := h.pc
  have hfetch : (Iss.fetch s).2 = fetched s := fetch_state hf.1
  have hfetch' : Iss.fetch s' = Iss.translate (fetched s') s.pc .fetch := by rw [← hpc]; rfl
  have hfault : (Iss.fetch s').2.tlbFault = false := by
    rw [hfetch']
    exact htranslate.2.trans hf.1
  have hword : Memory.read (Iss.fetch s).2.mem (Iss.fetch s).1 4 = i := hf.2
  refine ⟨hfault, ?_⟩
  rw [fetch_state hfault, hfetch', htranslate.1, h.mem]
  rw [hfetch] at hword
  exact hword

end Fetch

section Slot

variable {j : Jump} {s : State} {slot : Word} {run : State → Option (Bool × State)}

theorem fetches_linkBefore (h : Fetches (slotEntry s) slot) :
    Fetches (slotEntry (j.linkBefore s)) slot := by
  unfold Jump.linkBefore Jump.writeLink
  split
  · exact h
  · split
    · exact fetches_same (s := slotEntry s) ⟨rfl, rfl, rfl, rfl, rfl, rfl⟩ h
    · exact h

/-- The state in which the slot is executed. -/
def slotState (j : Jump) (s : State) : State := fetched (slotEntry (j.linkBefore s))

/-- The slot has been fetched, and is executed. -/
def RunsSlot (run : State → Option (Bool × State)) (slot : Word) (s : State) : Prop :=
  ∀ j : Jump, run (slotEntry (j.linkBefore s)) = (plainEffect slot (slotState j s)).finish

theorem runs_slot {in64 : Bool} {p : Pred} {u : Uop} {fpu : Fpu} {n : Nat}
    (hdec : decode in64 p slot = some u) (hjump : isJump slot = false)
    (h : Fetches (slotEntry s) slot) : RunsSlot (Iss.execMips fpu (n + 1)) slot s := by
  intro j
  rw [execMips_fetched (fetches_linkBefore h), execute_plain hdec hjump]
  rfl

theorem linkBefore_cpr0 (j : Jump) (s : State) : (j.linkBefore s).cpr0 = s.cpr0 := by
  unfold Jump.linkBefore Jump.writeLink
  split
  · rfl
  · split <;> rfl

theorem slotState_cpr0 (j : Jump) (s : State) : (slotState j s).cpr0 = s.cpr0 :=
  linkBefore_cpr0 j s

theorem slotState_pc (j : Jump) (s : State) : (slotState j s).pc = s.pc + 4 :=
  congrArg (· + 4) (Iss.linkBefore_pc j s)

/-- The slot finds the return address, if it is written before it. -/
theorem slotState_regs (h0 : s.gpr 0#5 = 0) (hearly : j.linkLate = false)
    (hlink : j.link ≠ some 0#5) : regs (slotState j s) = (regs s).link s.pc j.link := by
  have hclear : Function.update s.gpr 0#5 0 = s.gpr := Function.update_eq_self_iff.mpr h0.symm
  have hbefore : j.linkBefore s = j.writeLink s.pc s := by
    unfold Jump.linkBefore
    rw [hearly, if_neg (by decide)]
  unfold slotState
  rw [hbefore]
  unfold Jump.writeLink
  split
  case h_1 d hd =>
    have hne : d ≠ 0#5 := fun hz => hlink (hz ▸ hd)
    have hcomm : Function.update (Function.update s.gpr d (s.pc + 8)) 0#5 0 =
        Function.update s.gpr d (s.pc + 8) := by
      rw [Function.update_comm hne, hclear]
    show (⟨Function.update (Function.update s.gpr d (s.pc + 8)) 0#5 0, s.hi, s.lo⟩ : Regs) = _
    rw [hcomm, hd]
    rfl
  case h_2 hnone =>
    show (⟨Function.update s.gpr 0#5 0, s.hi, s.lo⟩ : Regs) = _
    rw [hclear, hnone]
    rfl

/-- Where the interpreter goes after the slot. -/
def slotPc (j : Jump) (s : State) : Option (BitVec 5) → BitVec 64
  | none => if j.taken then j.target else s.pc + 8
  | some _ => if j.taken && s.srHas srExl then j.target else generalVector (s.cpr0 Cpr0.sr)

/-- A jump in the interpreter, by what its slot retires. -/
theorem outcome_jump (hearly : j.linkLate = false) (hnull : j.nullifies = false)
    (hrun : RunsSlot run slot s) :
    (runJump run j s).map outcome =
      (retired (plainEffect slot (slotState j s))).map fun q =>
        { regs := q.1, pc := slotPc j s q.2, cause := q.2 } := by
  have hends := plainEffect_ends slot (slotState j s)
  have hafter (s₁ : State) : j.linkAfter s.pc s₁ = s₁ := by
    unfold Jump.linkAfter
    rw [hearly, if_neg (by decide)]
  rw [runJump_eq, hnull, if_neg (by decide), hrun j]
  simp only [hafter]
  cases heffect : plainEffect slot (slotState j s) with
  | stop => rfl
  | next s₁ =>
    rw [heffect] at hends
    have hexl : s₁.srHas srExl = s.srHas srExl := by
      unfold State.srHas
      rw [hends.2, slotState_cpr0]
    have hkeep : exlRises s (s₁.setPc (s₁.pc + 4)) = false := by
      show (!s.srHas srExl && s₁.srHas srExl) = false
      rw [hexl]
      cases s.srHas srExl <;> rfl
    have hpc : s₁.pc + 4 = s.pc + 8 := by
      rw [hends.1, slotState_pc]
      exact BitVec.add_assoc s.pc 4 4
    simp only [Effect.finish, Option.map_some, hkeep, retired]
    cases htaken : j.taken with
    | false =>
      simp only [slotPc, htaken]
      rw [hpc]
      rfl
    | true =>
      simp only [slotPc, htaken]
      rfl
  | fault s₁ =>
    rw [heffect] at hends
    obtain ⟨code, rfl⟩ := hends
    have hrises : exlRises s (raiseGeneral code (slotState j s)) = !s.srHas srExl := by
      unfold exlRises
      rw [raise_exl, Bool.and_true]
    simp only [Effect.finish, Option.map_some, hrises, retired, slotPc, Bool.not_not]
    split
    · rfl
    · have hvector := raise_pc (slotState j s) code
      rw [slotState_cpr0] at hvector
      rw [← hvector]
      rfl

/-- The jump with its return address written before the slot. -/
def early (j : Jump) : Jump := { j with linkLate := false, late_regular := by simp }

theorem early_of_early (h : j.linkLate = false) : early j = j := by
  cases j
  cases h
  rfl

theorem finish_withGpr (e : Effect) (d : BitVec 5) (v : BitVec 64) :
    (Effect.withGpr d v e).finish = e.finish.map fun r => (r.1, r.2.setGpr d v) := by
  cases e <;> rfl

/-- A return address that the slot does not touch may as well be written before it. -/
theorem runJump_early {in64 : Bool} {p : Pred} {u : Uop} (hrun : RunsSlot run slot s)
    (hdec : decode in64 p slot = some u) (hjump : isJump slot = false)
    (hlate : j.linkLate = true → j.link = some 31 ∧ ¬ Touches slot 31) :
    runJump run j s = runJump run (early j) s := by
  cases hl : j.linkLate with
  | false => rw [early_of_early hl]
  | true =>
    obtain ⟨hlink, htouch⟩ := hlate hl
    have hnull : (early j).nullifies = j.nullifies := rfl
    have hbefore : j.linkBefore s = s := by
      unfold Jump.linkBefore
      rw [hl, if_pos rfl]
    have hbefore' : (early j).linkBefore s = s.setGpr 31 (s.pc + 8) := by
      show Jump.writeLink (early j) s.pc s = _
      unfold Jump.writeLink
      rw [show (early j).link = some 31 from hlink]
    have hstate : slotState (early j) s = (slotState j s).setGpr 31 (s.pc + 8) := by
      unfold slotState
      rw [hbefore, hbefore']
      exact fetched_setGpr (s := slotEntry s) (by decide)
    have heffect : plainEffect slot (slotState (early j) s) =
        Effect.withGpr 31 (s.pc + 8) (plainEffect slot (slotState j s)) := by
      rw [hstate]
      exact plainEffect_setGpr (decode_integer hdec) hjump (decoded_not_system hdec) htouch
    rw [runJump_eq, runJump_eq, hnull, hrun j, hrun (early j), heffect, finish_withGpr]
    by_cases hn : j.nullifies = true
    · -- the branches that write it late are not likely
      have hlikely := j.late_regular hl
      simp [Jump.nullifies, hlikely] at hn
    · rw [if_neg hn, if_neg hn, Option.map_map]
      congr 1
      funext r
      have hafter : j.linkAfter s.pc (slotExit s r.2) = (slotExit s r.2).setGpr 31 (s.pc + 8) := by
        unfold Jump.linkAfter Jump.writeLink
        rw [hl, if_pos rfl, hlink]
      simp only [hafter]
      rfl

end Slot

section Core

variable {m m' : Micro} {u u' : Uop} {i slot : Word} {pc target : BitVec 64} {r : Regs}
  {taken likely : Bool} {link : Option (BitVec 5)} {sr : BitVec 32}

theorem special_no_slot {in64 : Bool} {p : Pred} (hf : i.funct.toNat ≠ 8 ∧ i.funct.toNat ≠ 9) :
    (decodeSpecial in64 p i).hasDelaySlot = false := by
  unfold decodeSpecial
  split
  case h_16 h => exact absurd h hf.1
  case h_17 h => exact absurd h hf.2
  all_goals
    first
    | rfl
    | (unfold gated; split <;> rfl)
    | (unfold foldZero; split_ifs <;> rfl)
    | (unfold decodeSub; split_ifs <;> rfl)
    | (unfold decodeAnd; split_ifs <;> rfl)
    | (unfold decodeOr; split_ifs <;> rfl)
    | (unfold decodeTgeu; split_ifs <;> rfl)
    | (unfold decodeTltu; split_ifs <;> rfl)
    | (unfold gated foldZero; split_ifs <;> rfl)

/-- A reserved word of opcode 1, which keeps the delay slot of the branches. -/
def Reserved (u : Uop) (i : Word) : Prop :=
  u.op = .ii ∧ (Iss.decode i = .regimm13 ∨ Iss.decode i = .unhandled)

theorem regimm_slot {p : Pred} (hop : i.opcode.toNat = 1) (hjump : isJump i = false) :
    (decodeRegimm p i).hasDelaySlot = false ∨ Reserved (decodeRegimm p i) i := by
  unfold decodeRegimm
  split
  case h_15 =>
    refine Or.inr ⟨rfl, ?_⟩
    have hrt : Iss.decode i = Iss.decodeRegimm i.rt := by
      unfold Iss.decode
      rw [hop]
      rfl
    rw [hrt]
    unfold Iss.decodeRegimm
    split
    all_goals
      first
      | exact Or.inl rfl
      | exact Or.inr rfl
      | exact absurd ‹i.rt.toNat = _› ‹_›
  all_goals
    first
    | exact Or.inl rfl
    | rw [isJump_eq, decode_regimm hop ‹i.rt.toNat = _› rfl] at hjump
      exact absurd hjump (by decide)

/-- An instruction that is neither a jump nor reserved has no delay slot. -/
theorem plain_slot {in64 : Bool} {p : Pred} (hdec : decode in64 p i = some u)
    (hjump : isJump i = false) : u.hasDelaySlot = false ∨ Reserved u i := by
  have hjumps := hjump
  rw [isJump_eq] at hjumps
  unfold decode at hdec
  split at hdec
  case h_1 hop =>
    split at hdec
    case isTrue => cases hdec
    case isFalse =>
      cases hdec
      refine Or.inl (special_no_slot ⟨fun hf => ?_, fun hf => ?_⟩)
      · rw [decode_special hop hf rfl] at hjumps
        exact absurd hjumps (by decide)
      · rw [decode_special hop hf rfl] at hjumps
        exact absurd hjumps (by decide)
  case h_2 hop =>
    cases hdec
    exact regimm_slot hop hjump
  case h_23 => cases hdec
  all_goals
    cases hdec
    left
    try rw [decode_opcode ‹i.opcode.toNat = _› (by decide) rfl] at hjumps
    first
    | rfl
    | (unfold decodeAddiu; split <;> rfl)
    | (unfold gated; split <;> rfl)
    | exact absurd hjumps (by decide)

/-- Where the core goes after the slot. -/
def corePc (sr : BitVec 32) (pc target : BitVec 64) (taken : Bool) :
    Option (BitVec 5) → BitVec 64
  | none => if taken then target else pc + 8
  | some _ => generalVector sr

/-- A jump in the core. -/
theorem step_jump (hdec : decode (in64bOps sr) m.pred i = some u)
    (hturns : Turns m u i pc r taken likely target link)
    (hdec' : decode (in64bOps sr) m'.pred slot = some u') (hslot : u'.hasDelaySlot = false) :
    step m m' sr i slot pc r =
      some (if likely && !taken then { regs := r.link pc link, pc := pc + 8, cause := none }
        else
          let q := retire m'.junk u' (pc + 4) (r.link pc link)
          { regs := q.1, pc := corePc sr pc target taken q.2, cause := q.2 }) := by
  unfold step
  rw [hdec]
  dsimp only
  rw [hturns.retires]
  dsimp only
  rw [hturns.slot, hturns.nullifies, hdec']
  simp only [Bool.not_true, Bool.false_eq_true, if_false, hslot]
  split
  case isTrue hskip => rw [hturns.skips hskip]
  case isFalse =>
    cases hcause : (retire m'.junk u' (pc + 4) (r.link pc link)).2 with
    | none =>
      dsimp only
      rw [hturns.next]
      rfl
    | some c => rfl

/-- A likely branch that is not taken. -/
theorem step_nullified (hdec : decode (in64bOps sr) m.pred i = some u)
    (hturns : Turns m u i pc r taken likely target link) (hnull : (likely && !taken) = true) :
    step m m' sr i slot pc r =
      some { regs := r.link pc link, pc := pc + 8, cause := none } := by
  unfold step
  rw [hdec]
  dsimp only
  rw [hturns.retires]
  dsimp only
  rw [hturns.slot, hturns.nullifies, hnull, hturns.skips hnull]
  rfl

/-- A slot that is reserved is not looked at as an instruction of a slot. -/
theorem step_reserved (hdec : decode (in64bOps sr) m.pred i = some u)
    (hturns : Turns m u i pc r taken likely target link) (hnull : (likely && !taken) = false)
    (hdec' : decode (in64bOps sr) m'.pred slot = some u') (hslot : u'.hasDelaySlot = true) :
    step m m' sr i slot pc r = none := by
  unfold step
  rw [hdec]
  dsimp only
  rw [hturns.retires]
  dsimp only
  rw [hturns.slot, hturns.nullifies, hdec', hnull]
  simp only [Bool.not_true, Bool.false_eq_true, if_false, hslot, if_true]

/-- An instruction without a delay slot in the core. -/
theorem step_plain (hdec : decode (in64bOps sr) m.pred i = some u)
    (hslot : u.hasDelaySlot = false ∨ Reserved u i) :
    step m m' sr i slot pc r =
      some { regs := (retire m.junk u pc r).1
             pc := plainPc sr pc (retire m.junk u pc r).2
             cause := (retire m.junk u pc r).2 } := by
  unfold step
  rw [hdec]
  dsimp only
  rcases hslot with hslot | ⟨hii, -⟩
  · rw [hslot]
    cases hcause : (retire m.junk u pc r).2 with
    | none => rfl
    | some c => rfl
  · rw [retire_ii hii]
    rfl

end Core

section Agree

/-- The divides of a jump's slot, or of an instruction that is not a jump, have divisors that
are not zero. -/
def NonzeroDivisor (i slot : Word) (s : State) : Prop :=
  match Iss.jumpOf i (Iss.decode i) s with
  | some j => j.nullifies = false → ¬ DividesByZero slot ((regs s).link s.pc j.link)
  | none => ¬ DividesByZero i (regs s)

/-- The interpreter's step is defined, and it is the core's. -/
def Agrees (fpu : Fpu) (n : Nat) (m m' : Micro) (i slot : Word) (s : State) : Prop :=
  (Iss.execMips fpu (n + 2) s).isSome ∧
    (NonzeroDivisor i slot (fetched s) →
      (Iss.execMips fpu (n + 2) s).map outcome =
        step m m' (s.cpr0 Cpr0.sr) i slot s.pc (regs (fetched s)))

/-- The jump and its slot go to the same place. -/
def TargetOk (i slot : Word) (s : State) (j : Jump) (r : Regs) : Prop :=
  if Raises (Iss.in64bMode s) slot r then
    j.taken = true → s.srHas srExl = true → j.target = generalVector (s.cpr0 Cpr0.sr)
  else
    Iss.decode i = .j ∨ Iss.decode i = .jal →
      s.pc.extractLsb' 28 36 = (s.pc + 4).extractLsb' 28 36

/-- The slots of a jump for which the core and the interpreter agree. -/
def JumpOk (i slot : Word) (s : State) (j : Jump) : Prop :=
  let r := (regs s).link s.pc j.link
  PlainOk (Iss.in64bMode s) slot r ∧ (¬ DividesByZero slot r → TargetOk i slot s j r)

/-- The slot is not a jump, and leaves a return address alone that is written after it. -/
def SlotPlain (slot : Word) (j : Jump) : Prop :=
  isJump slot = false ∧ (j.linkLate = true → ¬ Touches slot 31)

/-- The instructions, with their slots, for which the core and the interpreter agree. -/
def AgreeOk (i slot : Word) (s : State) : Prop :=
  match Iss.jumpOf i (Iss.decode i) s with
  | some j => j.nullifies = true ∨ SlotPlain slot j ∧ JumpOk i slot s j
  | none => PlainOk (Iss.in64bMode s) i (regs s)

section Jump

variable {i slot : Word} {s : State} {j : Jump} {insn : Insn}

/-- The return address goes to the register of JALR or to register 31. -/
theorem jumpOf_link (hj : Iss.jumpOf i insn s = some j) :
    j.link ≠ some 0#5 ∧ (j.linkLate = true → j.link = some 31) := by
  unfold Iss.jumpOf at hj
  dsimp only at hj
  split at hj
  case h_2 =>
    cases hj
    by_cases hd : i.rd = 0#5
    · simp [hd]
    · simp [hd]
  case h_25 => cases hj
  all_goals
    cases hj
    simp [Iss.branchTo, Iss.likelyTo]

theorem jumpOf_region (hj : Iss.jumpOf i insn s = some j) (hregion : insn = .j ∨ insn = .jal) :
    j.taken = true ∧ j.target = Iss.regionTarget i s := by
  rcases hregion with rfl | rfl
  all_goals
    cases hj
    exact ⟨rfl, rfl⟩

/-- The target of J and JAL, as a word of the region of the slot. -/
theorem regionTarget_eq : Iss.regionTarget i s =
    ((s.pc + 4).extractLsb' 28 36 ++ (i.index ++ (0 : BitVec 2) : BitVec 28) :
      BitVec (36 + 28)) := by
  have hmask : ∀ k < 64, (0xfffffff : BitVec 64).getLsbD k = decide (k < 28) := by decide
  apply BitVec.eq_of_getLsbD_eq
  intro k hk
  unfold Iss.regionTarget
  rw [BitVec.getLsbD_or, BitVec.getLsbD_shiftLeft, BitVec.getLsbD_and, BitVec.getLsbD_not,
    hmask k hk, BitVec.getLsbD_append, BitVec.getLsbD_append, BitVec.getLsbD_setWidth,
    BitVec.getLsbD_extractLsb']
  by_cases hlow : k < 28
  · by_cases hzero : k < 2
    · simp [hlow, hzero]
    · have hsub : k - 2 < 64 := by omega
      simp [hk, hlow, hzero, hsub]
  · have hout : i.index.getLsbD (k - 2) = false := BitVec.getLsbD_of_ge _ _ (by omega)
    have hsub : k - 28 < 36 := by omega
    have hadd : 28 + (k - 28) = k := by omega
    simp [hk, hlow, hout, hsub, hadd]

theorem append_left_inj {a b : BitVec 36} {c : BitVec 28}
    (h : (a ++ c : BitVec (36 + 28)) = b ++ c) : a = b := by
  apply BitVec.eq_of_getLsbD_eq
  intro k hk
  have hbit : (a ++ c : BitVec (36 + 28)).getLsbD (28 + k) =
      (b ++ c : BitVec (36 + 28)).getLsbD (28 + k) := by rw [h]
  have hge : ¬ 28 + k < 28 := by omega
  rwa [BitVec.getLsbD_append, BitVec.getLsbD_append, if_neg hge, if_neg hge,
    Nat.add_sub_cancel_left] at hbit

/-- The core finds the target of J and JAL when the jump and its slot are in one region. -/
theorem region_iff : fetchRegion i s.pc = Iss.regionTarget i s ↔
    s.pc.extractLsb' 28 36 = (s.pc + 4).extractLsb' 28 36 := by
  rw [regionTarget_eq]
  exact ⟨append_left_inj, fun h => by rw [← h]; rfl⟩

end Jump

section Target

variable {i slot : Word} {s : State} {j : Jump} {r : Regs} {c : Option (BitVec 5)}

/-- After a slot the two go to the same place. -/
theorem slotPc_eq_corePc_iff (hj : Iss.jumpOf i (Iss.decode i) s = some j)
    (hraises : c.isSome = Raises (Iss.in64bMode s) slot r) :
    slotPc j s c = corePc (s.cpr0 Cpr0.sr) s.pc (coreTarget i s.pc j) j.taken c ↔
      TargetOk i slot s j r := by
  unfold TargetOk
  rw [← hraises]
  cases c with
  | some code =>
    show (if j.taken && s.srHas srExl then j.target else generalVector (s.cpr0 Cpr0.sr)) =
      generalVector (s.cpr0 Cpr0.sr) ↔ _
    rw [Option.isSome_some, if_pos rfl]
    cases j.taken <;> cases s.srHas srExl <;> simp
  | none =>
    show (if j.taken then j.target else s.pc + 8) =
      (if j.taken then coreTarget i s.pc j else s.pc + 8) ↔ _
    simp only [Option.isSome_none, Bool.false_eq_true, if_false]
    by_cases hregion : Iss.decode i = .j ∨ Iss.decode i = .jal
    · obtain ⟨htaken, htarget⟩ := jumpOf_region hj hregion
      have hcore : coreTarget i s.pc j = fetchRegion i s.pc := region_target rfl hregion
      rw [htaken, if_pos rfl, if_pos rfl, htarget, hcore, eq_comm, region_iff]
      exact ⟨fun h _ => h, fun h => h hregion⟩
    · have hcore : coreTarget i s.pc j = j.target := coreTarget_of rfl (not_or.mp hregion)
      rw [hcore]
      exact iff_of_true rfl fun h => absurd h hregion

theorem retired_faults {e : Effect} {q : Regs × Option (BitVec 5)} (h : retired e = some q) :
    q.2.isSome = faults e := by
  cases e with
  | next s₁ =>
    cases h
    rfl
  | fault s₁ =>
    cases h
    rfl
  | stop => cases h

end Target

section Main

variable {m m' : Micro} {u u' : Uop} {i slot : Word} {s : State} {j : Jump} {fpu : Fpu}

/-- A jump whose slot is run, and whose return address is written before it. -/
theorem early_agrees_iff {run : State → Option (Bool × State)}
    (hdec : decode (in64bOps (s.cpr0 Cpr0.sr)) m.pred i = some u)
    (hdec' : decode (in64bOps (s.cpr0 Cpr0.sr)) m'.pred slot = some u')
    (h0 : s.gpr 0#5 = 0) (hj : Iss.jumpOf i (Iss.decode i) s = some j)
    (hnull : j.nullifies = false) (hjump : isJump slot = false) (hrun : RunsSlot run slot s) :
    ((runJump run (early j) s).map outcome).isSome ∧
        (¬ DividesByZero slot ((regs s).link s.pc j.link) →
          (runJump run (early j) s).map outcome =
            step m m' (s.cpr0 Cpr0.sr) i slot s.pc (regs s)) ↔
      JumpOk i slot s j := by
  have hlink := jumpOf_link hj
  have hregs : regs (slotState (early j) s) = (regs s).link s.pc j.link :=
    slotState_regs h0 rfl hlink.1
  have hcpr := slotState_cpr0 (early j) s
  have hmode : Iss.in64bMode (slotState (early j) s) = Iss.in64bMode s := by
    rw [← in64bOps_eq, ← in64bOps_eq, hcpr]
  have hdecSlot : decode (in64bOps ((slotState (early j) s).cpr0 Cpr0.sr)) m'.pred slot =
      some u' := by rw [hcpr, hdec']
  have hplain : PlainAgrees m'.junk u' (s.pc + 4) slot (slotState (early j) s) ↔
      PlainOk (Iss.in64bMode s) slot ((regs s).link s.pc j.link) := by
    rw [← hmode, ← hregs]
    exact plain_agrees_iff hdecSlot hjump (fetched_zero _)
  have hfaults {q : Regs × Option (BitVec 5)}
      (hq : retired (plainEffect slot (slotState (early j) s)) = some q) :
      q.2.isSome = Raises (Iss.in64bMode s) slot ((regs s).link s.pc j.link) := by
    rw [retired_faults hq, ← hmode, ← hregs]
    exact plainEffect_faults (decode_integer hdec') (decoded_not_system hdec')
  have hturns := turns_like hdec h0 hj
  rw [outcome_jump (j := early j) rfl hnull hrun]
  unfold PlainAgrees at hplain
  rw [hregs] at hplain
  cases hslot : u'.hasDelaySlot with
  | true =>
    -- the reserved words of opcode 1 keep the delay slot of the branches
    have hres : Iss.decode slot = .regimm13 ∨ Iss.decode slot = .unhandled := by
      rcases plain_slot hdec' hjump with hfalse | hres
      · rw [hslot] at hfalse
        cases hfalse
      · exact hres.2
    have hbad : ¬ PlainOk (Iss.in64bMode s) slot ((regs s).link s.pc j.link) := by
      unfold PlainOk
      rcases hres with h | h <;> rw [h] <;> exact id
    have hnz : ¬ DividesByZero slot ((regs s).link s.pc j.link) := by
      unfold DividesByZero
      rcases hres with h | h <;> rw [h] <;> exact id
    rw [step_reserved hdec hturns hnull hdec' hslot]
    refine iff_of_false (fun hall => ?_) fun hok => hbad hok.1
    have hnone := hall.2 hnz
    rw [hnone] at hall
    exact absurd hall.1 (by simp)
  | false =>
    have hskip : (j.likely && !j.taken) = false := hnull
    rw [step_jump hdec hturns hdec' hslot, hskip]
    simp only [Bool.false_eq_true, if_false]
    cases hq : retired (plainEffect slot (slotState (early j) s)) with
    | none =>
      rw [hq] at hplain
      refine iff_of_false (fun hall => absurd hall.1 (by simp)) fun hok => ?_
      exact absurd (hplain.mpr hok.1).1 (by simp)
    | some q =>
      rw [hq] at hplain
      have htarget := slotPc_eq_corePc_iff hj (hfaults hq)
      simp only [Option.map_some, Option.isSome_some, true_and, Option.some.injEq] at hplain ⊢
      constructor
      · intro hall
        refine ⟨hplain.mp fun hnz => ?_, fun hnz => ?_⟩
        · obtain ⟨hr, -, hc⟩ := (Result.mk.injEq _ _ _ _ _ _).mp (hall hnz)
          exact Prod.ext hr hc
        · obtain ⟨-, hpc, hc⟩ := (Result.mk.injEq _ _ _ _ _ _).mp (hall hnz)
          rw [← hc] at hpc
          exact htarget.mp hpc
      · intro hok hnz
        have hretire := hplain.mpr hok.1 hnz
        rw [← hretire]
        have hpc := htarget.mpr (hok.2 hnz)
        show (⟨q.1, slotPc j s q.2, q.2⟩ : Result) = _
        rw [hpc]

/-- The instruction and its slot are fetched and decoded. -/
structure Executes (m m' : Micro) (i slot : Word) (s : State) : Prop where
  fetch : Fetches s i
  decoded : (decode (in64bOps (s.cpr0 Cpr0.sr)) m.pred i).isSome
  slotFetch : isJump i = true → Fetches (slotEntry (fetched s)) slot
  slotDecoded : isJump i = true → (decode (in64bOps (s.cpr0 Cpr0.sr)) m'.pred slot).isSome

theorem isJump_iff {in64 : Bool} {p : Pred} (hdec : decode in64 p i = some u) :
    isJump i = true ↔ (Iss.jumpOf i (Iss.decode i) s).isSome := by
  have hint := decode_integer hdec
  rw [isJump_eq]
  generalize Iss.decode i = insn at hint
  cases insn
  all_goals first | exact absurd hint (by decide) | simp [jumps, Iss.jumpOf]

/-- The slots that say whether the two agree: those of a jump that runs its slot. -/
def SlotSimple (i slot : Word) (s : State) : Prop :=
  ∀ j, Iss.jumpOf i (Iss.decode i) s = some j → j.nullifies = false → SlotPlain slot j

theorem finish_isSome (e : Effect) : e.finish.isSome = (retired e).isSome := by
  cases e <;> rfl

/-- An instruction that is not a jump. -/
theorem plain_step_agrees_iff {n : Nat} (h : Executes m m' i slot s)
    (hj : Iss.jumpOf i (Iss.decode i) (fetched s) = none) :
    Agrees fpu n m m' i slot s ↔ AgreeOk i slot (fetched s) := by
  obtain ⟨u, hdec⟩ := Option.isSome_iff_exists.mp h.decoded
  have hjump : isJump i = false := by
    rw [← Bool.not_eq_true, isJump_iff (s := fetched s) hdec, hj]
    decide
  have hplain : PlainAgrees m.junk u s.pc i (fetched s) ↔
      PlainOk (Iss.in64bMode (fetched s)) i (regs (fetched s)) :=
    plain_agrees_iff hdec hjump (fetched_zero s)
  unfold Agrees NonzeroDivisor AgreeOk
  rw [execMips_fetched h.fetch, execute_plain hdec hjump, hj, outcome_plain,
    step_plain hdec (plain_slot hdec hjump), finish_isSome]
  dsimp only
  rw [← hplain, PlainAgrees]
  cases hq : retired (plainEffect i (fetched s)) with
  | none => simp
  | some q =>
    simp only [Option.map_some, Option.isSome_some, true_and, Option.some.injEq]
    constructor
    · intro hall hnz
      obtain ⟨hr, -, hc⟩ := (Result.mk.injEq _ _ _ _ _ _).mp (hall hnz)
      exact Prod.ext hr hc
    · intro hall hnz
      rw [← hall hnz]
      rfl

/-- A likely branch that skips its slot. -/
theorem nullified_agrees {n : Nat} (h : Executes m m' i slot s)
    (hj : Iss.jumpOf i (Iss.decode i) (fetched s) = some j) (hnull : j.nullifies = true) :
    Agrees fpu n m m' i slot s := by
  obtain ⟨u, hdec⟩ := Option.isSome_iff_exists.mp h.decoded
  have hjump : isJump i = true := by
    rw [isJump_iff (s := fetched s) hdec, hj]
    rfl
  have hearly : j.linkLate = false := by
    rw [← Bool.not_eq_true]
    intro hlate
    simp [Jump.nullifies, j.late_regular hlate] at hnull
  have hturns : Turns m u i s.pc (regs (fetched s)) j.taken j.likely
      (coreTarget i s.pc j) j.link := turns_like hdec (fetched_zero s) hj
  have hregs := slotState_regs (fetched_zero s) hearly (jumpOf_link hj).1
  have houtcome : outcome (false, (j.linkBefore (fetched s)).setPc (s.pc + 8)) =
      { regs := (regs (fetched s)).link s.pc j.link, pc := s.pc + 8, cause := none } := by
    show (⟨regs (slotState j (fetched s)), s.pc + 8, none⟩ : Result) = _
    rw [hregs]
    rfl
  unfold Agrees
  rw [execMips_fetched h.fetch, execute_jump hdec hj (gate_jump hjump), runJump_eq, if_pos hnull,
    step_nullified hdec hturns hnull]
  refine ⟨rfl, fun _ => ?_⟩
  exact congrArg some houtcome

theorem agrees_iff {n : Nat} (h : Executes m m' i slot s)
    (hsimple : SlotSimple i slot (fetched s)) :
    Agrees fpu n m m' i slot s ↔ AgreeOk i slot (fetched s) := by
  obtain ⟨u, hdec⟩ := Option.isSome_iff_exists.mp h.decoded
  cases hj : Iss.jumpOf i (Iss.decode i) (fetched s) with
  | none => exact plain_step_agrees_iff h hj
  | some j =>
    have hjump : isJump i = true := by
      rw [isJump_iff (s := fetched s) hdec, hj]
      rfl
    cases hnull : j.nullifies with
    | true =>
      refine iff_of_true (nullified_agrees h hj hnull) ?_
      unfold AgreeOk
      rw [hj]
      exact Or.inl hnull
    | false =>
      obtain ⟨u', hdec'⟩ := Option.isSome_iff_exists.mp (h.slotDecoded hjump)
      have hplain := hsimple j hj hnull
      have hrun : RunsSlot (Iss.execMips fpu (n + 1)) slot (fetched s) :=
        runs_slot hdec' hplain.1 (h.slotFetch hjump)
      have hiff := early_agrees_iff (s := fetched s) hdec hdec' (fetched_zero s) hj hnull
        hplain.1 hrun
      have hearly : runJump (Iss.execMips fpu (n + 1)) j (fetched s) =
          runJump (Iss.execMips fpu (n + 1)) (early j) (fetched s) :=
        runJump_early hrun hdec' hplain.1 fun hlate =>
          ⟨(jumpOf_link hj).2 hlate, hplain.2 hlate⟩
      have hok : AgreeOk i slot (fetched s) ↔ JumpOk i slot (fetched s) j := by
        unfold AgreeOk
        rw [hj]
        simp only [hnull, Bool.false_eq_true, false_or]
        exact and_iff_right hplain
      rw [hok, ← hiff]
      unfold Agrees NonzeroDivisor
      rw [execMips_fetched h.fetch, execute_jump hdec hj (gate_jump hjump), hearly, hj,
        Option.isSome_map]
      simp only [hnull, forall_const]
      rfl

/-- The core and the interpreter agree about every instruction and slot for which `AgreeOk`
holds, and about no others, unless a jump or a return address is in the way of the slot. -/
theorem core_agrees_with_interpreter {n : Nat} (h : Executes m m' i slot s) :
    (AgreeOk i slot (fetched s) → Agrees fpu n m m' i slot s) ∧
      (SlotSimple i slot (fetched s) →
        Agrees fpu n m m' i slot s → AgreeOk i slot (fetched s)) := by
  refine ⟨fun hok => (agrees_iff h ?_).mpr hok, fun hsimple => (agrees_iff h hsimple).mp⟩
  intro j hj hnull
  unfold AgreeOk at hok
  rw [hj] at hok
  rcases hok with hok | hok
  · rw [hnull] at hok
    cases hok
  · exact hok.1

/-- Physical registers of zeros, and no branch predicted. -/
def idle : Micro := { junk := ⟨0, 0, 0⟩, pred := ⟨false, 0⟩ }

/-- `jr $1` with `addiu $2, $0, 5` in its slot. -/
def jrProgram : State := Iss.programState 0 [0x00200008, 0x24020005]

theorem jrProgram_executes : Executes idle idle 0x00200008 0x24020005 jrProgram where
  fetch := ⟨by decide +kernel, by decide +kernel⟩
  decoded := by decide
  slotFetch _ := ⟨by decide +kernel, by decide +kernel⟩
  slotDecoded _ := by decide

theorem core_agrees_with_interpreter_jr :
    (AgreeOk 0x00200008 0x24020005 (fetched jrProgram) →
        Agrees Iss.noFpu 0 idle idle 0x00200008 0x24020005 jrProgram) ∧
      (SlotSimple 0x00200008 0x24020005 (fetched jrProgram) →
        Agrees Iss.noFpu 0 idle idle 0x00200008 0x24020005 jrProgram →
          AgreeOk 0x00200008 0x24020005 (fetched jrProgram)) :=
  core_agrees_with_interpreter jrProgram_executes

/-- `divu $0, $1` by a register that is zero in its low word alone. -/
def divuProgram : State :=
  { Iss.programState 0 [0x0001001b] with gpr := fun r => if r = 1 then 0x100000000 else 0 }

theorem divuProgram_executes : Executes idle idle 0x0001001b 0 divuProgram where
  fetch := ⟨by decide +kernel, by decide +kernel⟩
  decoded := by decide
  slotFetch h := absurd h (by decide)
  slotDecoded h := absurd h (by decide)

/-- The interpreter divides by zero there. -/
theorem core_and_interpreter_differ :
    ¬ ∀ (fpu : Fpu) (n : Nat) (m m' : Micro) (i slot : Word) (s : State),
      Executes m m' i slot s → Agrees fpu n m m' i slot s := by
  intro hall
  have hsome := (hall Iss.noFpu 0 idle idle _ _ _ divuProgram_executes).1
  have hnone : (Iss.execMips Iss.noFpu 2 divuProgram).isSome = false := by decide +kernel
  rw [hnone] at hsome
  exact absurd hsome (by decide)

end Main

end Agree

end Exec

end R9999
