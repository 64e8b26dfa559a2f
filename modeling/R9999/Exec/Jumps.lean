import Mathlib.Tactic.IntervalCases
import R9999.Exec.GoldenStep

/-!
# The jumps and branches of the core

Where the core goes after a jump or a branch does not depend on what was predicted.  A
wrong prediction restarts the fetch at the pc that the datapath computed, and a right one
has been fetched from.  J and JAL are not compared with what was fetched, which takes the
region from the pc of the jump itself.
-/

namespace R9999

namespace Exec

open Iss (Word State Effect Insn)

section Predecode

theorem bswap32_bswap32 (w : Word) : Core.bswap32 (Core.bswap32 w) = w := by
  apply BitVec.eq_of_getLsbD_eq
  intro i hi
  simp only [Core.bswap32, BitVec.getLsbD_append, BitVec.getLsbD_extractLsb']
  interval_cases i <;> simp

end Predecode

/-- The write of the return address. -/
def Regs.link (r : Regs) (pc : BitVec 64) : Option (BitVec 5) → Regs
  | some d => { r with gpr := Function.update r.gpr d (pc + 8) }
  | none => r

/-- What the core makes of a jump or a branch. -/
structure Turns (m : Micro) (u : Uop) (i : Word) (pc : BitVec 64) (r : Regs)
    (taken likely : Bool) (target : BitVec 64) (link : Option (BitVec 5)) : Prop where
  slot : u.hasDelaySlot = true
  retires : retire m.junk u pc r = (r.link pc link, none)
  nullifies : ((completion m.junk u pc r).faulted && u.hasNullifyingDelaySlot &&
    !(completion m.junk u pc r).takeBr) = (likely && !taken)
  skips : (likely && !taken) = true → (completion m.junk u pc r).pc = pc + 8
  next : (if (completion m.junk u pc r).faulted then (completion m.junk u pc r).pc
    else fetchNext m.pred i pc) = if taken then target else pc + 8

section Families

variable {m : Micro} {u : Uop} {i : Word} {pc a : BitVec 64} {r : Regs} {taken l : Bool}

/-- The target of a branch. -/
def branchTarget (i : Word) (pc : BitVec 64) : BitVec 64 := pc + 4 + (i.simm <<< 2)

/-- The fetch of a branch goes where it was predicted to go. -/
def FetchesBranch (m : Micro) (i : Word) (pc : BitVec 64) (taken : Bool) : Prop :=
  m.pred.insnPred = taken →
    fetchNext m.pred i pc = if taken then branchTarget i pc else pc + 8

/-- An output of which only the link, the prediction and the restart matter. -/
theorem retire_link (hcause : (completion m.junk u pc r).cause = none)
    (hres : (completion m.junk u pc r).wrIntPrf = l)
    (hlink : l = true → u.dst = 31#5 ∧ (completion m.junk u pc r).result = pc + 8)
    (hhilo : (completion m.junk u pc r).wrHilo = false) :
    retire m.junk u pc r = (r.link pc (if l then some 31 else none), none) := by
  unfold retire
  dsimp only
  rw [hcause]
  unfold commit
  rw [hres, hhilo]
  cases l with
  | false => rfl
  | true =>
    obtain ⟨hdst, hresult⟩ := hlink rfl
    rw [hdst, hresult]
    rfl

/-- A branch, which may write the return address. -/
theorem turns_branch
    (hout : completion m.junk u pc r =
      if l then (Out.branch u pc a taken).link pc else Out.branch u pc a taken)
    (hslot : u.hasDelaySlot = true) (hlikely : u.hasNullifyingDelaySlot = false)
    (himm : u.imm = immOf i) (hpred : u.brPred = m.pred.insnPred) (hdst : l = true → u.dst = 31#5)
    (hfetch : FetchesBranch m i pc taken) :
    Turns m u i pc r taken false (branchTarget i pc) (if l then some 31 else none) := by
  have hsimm : simm u = i.simm := by rw [simm, himm]; rfl
  have hfaulted : (completion m.junk u pc r).faulted = (m.pred.insnPred != taken) := by
    rw [hout, ← hpred]
    cases l <;> simp [Out.faulted, Out.link, Out.branch, Out.quiet]
  have hpc : (completion m.junk u pc r).pc = if taken then branchTarget i pc else pc + 8 := by
    rw [hout, branchTarget, ← hsimm]
    cases l <;> rfl
  refine ⟨hslot, retire_link ?_ ?_ ?_ ?_, by rw [hlikely]; simp, by simp, ?_⟩
  · rw [hout]
    cases l <;> simp [Out.cause, Out.link, Out.branch, Out.quiet]
  · rw [hout]
    cases l <;> rfl
  · rintro rfl
    exact ⟨hdst rfl, by rw [hout]; rfl⟩
  · rw [hout]
    cases l <;> rfl
  · rw [hfaulted, hpc]
    split
    case isTrue => rfl
    case isFalse hright =>
      have hpredicted : m.pred.insnPred = taken := by simpa using hright
      exact hfetch hpredicted

/-- A likely branch, which may write the return address. -/
theorem turns_likely
    (hout : completion m.junk u pc r =
      if l then (Out.likely u pc a taken).link pc else Out.likely u pc a taken)
    (hslot : u.hasDelaySlot = true) (hlikely : u.hasNullifyingDelaySlot = true)
    (himm : u.imm = immOf i) (hpred : u.brPred = m.pred.insnPred) (hdst : l = true → u.dst = 31#5)
    (hfetch : FetchesBranch m i pc true) :
    Turns m u i pc r taken true (branchTarget i pc) (if l then some 31 else none) := by
  have hsimm : simm u = i.simm := by rw [simm, himm]; rfl
  have hfaulted : (completion m.junk u pc r).faulted = (m.pred.insnPred != taken || !taken) := by
    rw [hout, ← hpred]
    cases l <;> simp [Out.faulted, Out.link, Out.likely, Out.branch, Out.quiet]
  have hpc : (completion m.junk u pc r).pc = if taken then branchTarget i pc else pc + 8 := by
    rw [hout, branchTarget, ← hsimm]
    cases l <;> rfl
  have htaken : (completion m.junk u pc r).takeBr = taken := by
    rw [hout]
    cases l <;> rfl
  refine ⟨hslot, retire_link ?_ ?_ ?_ ?_, ?_, ?_, ?_⟩
  · rw [hout]
    cases l <;> simp [Out.cause, Out.link, Out.likely, Out.branch, Out.quiet]
  · rw [hout]
    cases l <;> rfl
  · rintro rfl
    exact ⟨hdst rfl, by rw [hout]; rfl⟩
  · rw [hout]
    cases l <;> rfl
  · rw [hfaulted, hlikely, htaken]
    cases taken <;> simp
  · intro hskip
    have hnot : taken = false := by simpa using hskip
    rw [hpc, hnot, if_neg (by decide)]
  · rw [hfaulted, hpc]
    split
    case isTrue => rfl
    case isFalse hright =>
      obtain ⟨hpredicted, rfl⟩ : m.pred.insnPred = true ∧ taken = true := by
        revert hright
        cases m.pred.insnPred <;> cases taken <;> simp
      exact hfetch hpredicted

/-- A jump to a register, which may write the return address. -/
theorem turns_jumpReg {link : Option (BitVec 5)}
    (hout : completion m.junk u pc r =
      if link.isSome then (Out.jumpReg u pc a).link pc else Out.jumpReg u pc a)
    (hslot : u.hasDelaySlot = true) (hlikely : u.hasNullifyingDelaySlot = false)
    (hpred : (u.jmpImm ++ u.imm : BitVec (48 + 16)) = m.pred.insnPredTarget)
    (hdst : ∀ d, link = some d → u.dst = d)
    (hfetch : fetchNext m.pred i pc = m.pred.insnPredTarget) :
    Turns m u i pc r true false a link := by
  have hfaulted : (completion m.junk u pc r).faulted = (a != m.pred.insnPredTarget) := by
    rw [hout, ← hpred]
    cases link <;> simp [Out.faulted, Out.link, Out.jumpReg, Out.quiet]
  have hpc : (completion m.junk u pc r).pc = a := by
    rw [hout]
    cases link <;> rfl
  have hcause : (completion m.junk u pc r).cause = none := by
    rw [hout]
    cases link <;> simp [Out.cause, Out.link, Out.jumpReg, Out.quiet]
  refine ⟨hslot, ?_, by rw [hlikely]; simp, by simp, ?_⟩
  · unfold retire
    dsimp only
    rw [hcause, hout]
    cases link with
    | none => rfl
    | some d =>
      have hd := hdst d rfl
      simp [commit, Out.link, Out.jumpReg, Out.quiet, Regs.link, hd]
  · rw [hfaulted, hpc, if_pos rfl]
    split
    case isTrue => rfl
    case isFalse hright =>
      have hpredicted : a = m.pred.insnPredTarget := by simpa using hright
      rw [hfetch, hpredicted]

end Families

section Fetch

variable {m : Micro} {i : Word} {pc : BitVec 64} {taken : Bool} {k : Nat}

/-- The predecode bits of a word go by its opcode alone, for most opcodes. -/
theorem predecode_opcode (hop : i.opcode.toNat = k)
    (hk : 1 < k ∧ k ≠ 4 ∧ k < 16 ∨ 19 < k ∧ k < 64) :
    Core.predecode (Core.bswap32 i) = Core.predecode (Core.bswap32 (BitVec.ofNat 32 (k * 2 ^ 26))) := by
  have hfield : Core.field i 26 6 = k := hop
  have hfield' : Core.field (BitVec.ofNat 32 (k * 2 ^ 26)) 26 6 = k := by
    rw [Core.field, BitVec.extractLsb'_toNat, BitVec.toNat_ofNat, Nat.shiftRight_eq_div_pow]
    omega
  unfold Core.predecode
  rw [bswap32_bswap32, bswap32_bswap32]
  dsimp only
  rw [hfield, hfield']
  split
  all_goals first | rfl | omega

theorem predecode_regimm (hop : i.opcode.toNat = 1) :
    Core.predecode (Core.bswap32 i) = Core.predecodeRegimm i.rt.toNat := by
  have hfield : Core.field i 26 6 = 1 := hop
  unfold Core.predecode
  rw [bswap32_bswap32]
  dsimp only
  rw [hfield]
  rfl

/-- JR is 4 or, to the return address, 7, and JALR is 6. -/
theorem predecode_jumpReg (hop : i.opcode.toNat = 0) (hf : i.funct.toNat = 8 ∨ i.funct.toNat = 9) :
    (Core.predecode (Core.bswap32 i)).toNat ∈ [4, 6, 7] := by
  have hfield : Core.field i 26 6 = 0 := hop
  unfold Core.predecode
  rw [bswap32_bswap32]
  dsimp only
  rw [hfield]
  rcases hf with hf | hf
  · have hfunct : Core.field i 0 6 = 8 := hf
    rw [hfunct]
    show (if Core.field i 21 5 = 31 then (7 : BitVec 4) else 4).toNat ∈ [4, 6, 7]
    split <;> decide
  · have hfunct : Core.field i 0 6 = 9 := hf
    rw [hfunct]
    show (6 : BitVec 4).toNat ∈ [4, 6, 7]
    decide

/-- BEQ is 1 or, of register zero with itself, 8. -/
theorem predecode_beq (hop : i.opcode.toNat = 4) :
    Core.predecode (Core.bswap32 i) = if i.rs = 0#5 ∧ i.rt = 0#5 then 8 else 1 := by
  have hfield : Core.field i 26 6 = 4 := hop
  have hrs : Core.field i 21 5 = 0 ↔ i.rs = 0#5 :=
    ⟨fun h => BitVec.eq_of_toNat_eq h, fun h => congrArg BitVec.toNat h⟩
  have hrt : Core.field i 16 5 = 0 ↔ i.rt = 0#5 :=
    ⟨fun h => BitVec.eq_of_toNat_eq h, fun h => congrArg BitVec.toNat h⟩
  unfold Core.predecode
  rw [bswap32_bswap32]
  dsimp only
  rw [hfield]
  simp only [hrs, hrt]

/-- A branch that may go either way. -/
theorem fetches_either (h : (Core.predecode (Core.bswap32 i)).toNat = 1 ∨
    (Core.predecode (Core.bswap32 i)).toNat = 9) : FetchesBranch m i pc taken := by
  intro hpred
  unfold fetchNext branchTarget
  dsimp only
  rcases h with h | h
  all_goals
    rw [h, hpred]
    rfl

/-- A branch that is fetched as taken. -/
theorem fetches_taken (h : (Core.predecode (Core.bswap32 i)).toNat = 2 ∨
    (Core.predecode (Core.bswap32 i)).toNat = 8) : FetchesBranch m i pc true := by
  intro _
  unfold fetchNext
  dsimp only
  rcases h with h | h
  all_goals
    rw [h]
    rfl

theorem fetches_jumpReg (h : (Core.predecode (Core.bswap32 i)).toNat ∈ [4, 6, 7]) :
    fetchNext m.pred i pc = m.pred.insnPredTarget := by
  unfold fetchNext
  dsimp only
  simp only [List.mem_cons, List.not_mem_nil, or_false] at h
  rcases h with h | h | h
  all_goals
    rw [h]
    rfl

theorem fetches_region (h : (Core.predecode (Core.bswap32 i)).toNat = 3 ∨
    (Core.predecode (Core.bswap32 i)).toNat = 5) :
    fetchNext m.pred i pc = fetchRegion i pc := by
  unfold fetchNext
  dsimp only
  rcases h with h | h
  all_goals
    rw [h]
    rfl

end Fetch

section Instructions

variable {m : Micro} {i : Word} {pc : BitVec 64} {r : Regs}

attribute [local simp] completion folds exec operandA operandB operandHilo

/-- J, which is folded. -/
theorem turns_j (hop : i.opcode.toNat = 2) :
    Turns m { op := .j, hasDelaySlot := true } i pc r true false (fetchRegion i pc) none := by
  have hfetch : fetchNext m.pred i pc = fetchRegion i pc :=
    fetches_region (Or.inl (by rw [predecode_opcode hop (by decide)]; rfl))
  refine ⟨rfl, ?_, by simp, by simp, ?_⟩
  · simp [retire, Out.cause, Out.faulted, commit, Regs.link]
  · simp [Out.faulted, hfetch]

/-- JAL is always predicted. -/
theorem turns_jal (hop : i.opcode.toNat = 3) :
    Turns m (decodeJal i) i pc r true false (fetchRegion i pc) (some 31) := by
  have hfetch : fetchNext m.pred i pc = fetchRegion i pc :=
    fetches_region (Or.inr (by rw [predecode_opcode hop (by decide)]; rfl))
  refine ⟨rfl, ?_, by simp [decodeJal], by simp, ?_⟩
  · simp [retire, decodeJal, Out.cause, Out.faulted, Out.link, Out.quiet, commit, Regs.link]
  · simp [decodeJal, Out.faulted, Out.link, Out.quiet, hfetch]

/-- The predicted target is put together again in the datapath. -/
theorem split_target (v : BitVec 64) :
    (v.extractLsb' 16 48 ++ v.extractLsb' 0 16 : BitVec (48 + 16)) = v := by
  apply BitVec.eq_of_getLsbD_eq
  intro i hi
  rw [BitVec.getLsbD_append]
  by_cases h : i < 16
  · simp [h]
  · have hsub : i - 16 < 48 := by omega
    have hadd : 16 + (i - 16) = i := by omega
    simp [h, hsub, hadd]

/-- JR. -/
theorem turns_jr (hop : i.opcode.toNat = 0) (hf : i.funct.toNat = 8) :
    Turns m (jumpReg .jr i m.pred) i pc r true false (r.gpr i.rs) none := by
  refine turns_jumpReg ?_ rfl rfl (split_target _) (by simp)
    (fetches_jumpReg (predecode_jumpReg hop (Or.inl hf)))
  simp [jumpReg]

/-- JALR, which without a destination is JR. -/
theorem turns_jalr (hop : i.opcode.toNat = 0) (hf : i.funct.toNat = 9) :
    Turns m (decodeJalr i m.pred) i pc r true false (r.gpr i.rs)
      (if i.rd ≠ 0 then some i.rd else none) := by
  have hfetch : fetchNext m.pred i pc = m.pred.insnPredTarget :=
    fetches_jumpReg (predecode_jumpReg hop (Or.inr hf))
  by_cases hd : i.rd = 0#5
  · rw [if_neg (by simpa using hd)]
    refine turns_jumpReg ?_ rfl rfl (split_target _) (by simp) hfetch
    simp [decodeJalr, jumpReg, hd]
  · rw [if_pos (show i.rd ≠ 0 from hd)]
    refine turns_jumpReg ?_ rfl rfl (split_target _) ?_ hfetch
    · simp [decodeJalr, jumpReg, hd]
    · intro d hsome
      exact Option.some.inj hsome

/-- The branches on one register. -/
theorem turns_branch1 {op : Op} {taken : Bool}
    (hout : completion m.junk (branch1 op i m.pred) pc r =
      Out.branch (branch1 op i m.pred) pc (r.gpr i.rs) taken)
    (hfetch : FetchesBranch m i pc taken) :
    Turns m (branch1 op i m.pred) i pc r taken false (branchTarget i pc) none :=
  turns_branch (l := false) hout rfl rfl rfl rfl (by simp) hfetch

/-- The branches on one register that write the return address. -/
theorem turns_linking {op : Op} {taken : Bool}
    (hout : completion m.junk (linking (branch1 op i m.pred)) pc r =
      (Out.branch (linking (branch1 op i m.pred)) pc (r.gpr i.rs) taken).link pc)
    (hfetch : FetchesBranch m i pc taken) :
    Turns m (linking (branch1 op i m.pred)) i pc r taken false (branchTarget i pc) (some 31) :=
  turns_branch (l := true) hout rfl rfl rfl rfl (fun _ => rfl) hfetch

/-- The likely branches on one register. -/
theorem turns_likely1 {op : Op} {taken : Bool} {a : BitVec 64}
    (hout : completion m.junk (likely1 op i m.pred) pc r =
      Out.likely (likely1 op i m.pred) pc a taken)
    (hfetch : FetchesBranch m i pc true) :
    Turns m (likely1 op i m.pred) i pc r taken true (branchTarget i pc) none :=
  turns_likely (l := false) hout rfl rfl rfl rfl (by simp) hfetch

/-- The likely branches on one register that write the return address. -/
theorem turns_likelyLinking {op : Op} {taken : Bool}
    (hout : completion m.junk (linking (likely1 op i m.pred)) pc r =
      (Out.likely (linking (likely1 op i m.pred)) pc (r.gpr i.rs) taken).link pc)
    (hfetch : FetchesBranch m i pc true) :
    Turns m (linking (likely1 op i m.pred)) i pc r taken true (branchTarget i pc) (some 31) :=
  turns_likely (l := true) hout rfl rfl rfl rfl (fun _ => rfl) hfetch

theorem turns_beq (hop : i.opcode.toNat = 4) (h0 : r.gpr 0#5 = 0) :
    Turns m (decodeBeq m.pred i) i pc r (r.gpr i.rt == r.gpr i.rs) false (branchTarget i pc)
      none := by
  have hpre := predecode_beq hop
  by_cases hboth : i.rs = 0#5 ∧ i.rt = 0#5
  · rw [if_pos hboth] at hpre
    have htaken : (r.gpr i.rt == r.gpr i.rs) = true := by rw [hboth.1, hboth.2, beq_self_eq_true]
    rw [htaken]
    refine turns_branch (l := false) (a := 0) ?_ rfl rfl rfl rfl (by simp)
      (fetches_taken (Or.inr (by rw [hpre]; rfl)))
    simp [decodeBeq, hboth]
  · rw [if_neg hboth] at hpre
    have hfetch : FetchesBranch m i pc (r.gpr i.rt == r.gpr i.rs) :=
      fetches_either (Or.inl (by rw [hpre]; rfl))
    have hcomm : (r.gpr i.rt == r.gpr i.rs) = (r.gpr i.rs == r.gpr i.rt) := BEq.comm
    refine turns_branch (l := false) (a := operandA m.junk (decodeBeq m.pred i) r) ?_ rfl rfl rfl
      rfl (by simp) hfetch
    by_cases hs : i.rs = 0#5
    · have ht : i.rt ≠ 0#5 := fun h => hboth ⟨hs, h⟩
      simp [decodeBeq, hs, ht, h0]
    · rw [hcomm]
      by_cases ht : i.rt = 0#5
      · simp [decodeBeq, hs, ht, h0]
      · simp [decodeBeq, hs, ht]

theorem turns_bne (hop : i.opcode.toNat = 5) (h0 : r.gpr 0#5 = 0) :
    Turns m (decodeBne m.pred i) i pc r (r.gpr i.rt != r.gpr i.rs) false (branchTarget i pc)
      none := by
  have hfetch : FetchesBranch m i pc (r.gpr i.rt != r.gpr i.rs) :=
    fetches_either (Or.inl (by rw [predecode_opcode hop (by decide)]; rfl))
  have hcomm : (r.gpr i.rt != r.gpr i.rs) = (r.gpr i.rs != r.gpr i.rt) := bne_comm
  refine turns_branch (l := false) (a := operandA m.junk (decodeBne m.pred i) r) ?_ rfl rfl rfl
    rfl (by simp) hfetch
  by_cases hs : i.rs = 0#5
  · by_cases ht : i.rt = 0#5
    · simp [decodeBne, hs, ht]
    · simp [decodeBne, hs, ht, h0]
  · rw [hcomm]
    by_cases ht : i.rt = 0#5
    · simp [decodeBne, hs, ht, h0]
    · simp [decodeBne, hs, ht]

theorem turns_beql (hop : i.opcode.toNat = 20) (h0 : r.gpr 0#5 = 0) :
    Turns m (likely2 .beql i .beqzl m.pred) i pc r (r.gpr i.rt == r.gpr i.rs) true
      (branchTarget i pc) none := by
  have hfetch : FetchesBranch m i pc true :=
    fetches_taken (Or.inl (by rw [predecode_opcode hop (by decide)]; rfl))
  have hcomm : (r.gpr i.rt == r.gpr i.rs) = (r.gpr i.rs == r.gpr i.rt) := BEq.comm
  refine turns_likely (l := false) (a := operandA m.junk (likely2 .beql i .beqzl m.pred) r) ?_ rfl
    rfl rfl rfl (by simp) hfetch
  by_cases hs : i.rs = 0#5
  · by_cases ht : i.rt = 0#5
    · simp [likely2, hs, ht]
    · simp [likely2, hs, ht, h0]
  · rw [hcomm]
    by_cases ht : i.rt = 0#5
    · simp [likely2, hs, ht, h0]
    · simp [likely2, hs, ht]

theorem turns_bnel (hop : i.opcode.toNat = 21) (h0 : r.gpr 0#5 = 0) :
    Turns m (likely2 .bnel i .bnezl m.pred) i pc r (r.gpr i.rt != r.gpr i.rs) true
      (branchTarget i pc) none := by
  have hfetch : FetchesBranch m i pc true :=
    fetches_taken (Or.inl (by rw [predecode_opcode hop (by decide)]; rfl))
  have hcomm : (r.gpr i.rt != r.gpr i.rs) = (r.gpr i.rs != r.gpr i.rt) := bne_comm
  refine turns_likely (l := false) (a := operandA m.junk (likely2 .bnel i .bnezl m.pred) r) ?_ rfl
    rfl rfl rfl (by simp) hfetch
  by_cases hs : i.rs = 0#5
  · by_cases ht : i.rt = 0#5
    · simp [likely2, hs, ht]
    · simp [likely2, hs, ht, h0]
  · rw [hcomm]
    by_cases ht : i.rt = 0#5
    · simp [likely2, hs, ht, h0]
    · simp [likely2, hs, ht]

end Instructions

section Classes

attribute [local simp] completion folds exec operandA operandB operandHilo

variable {m : Micro} {u : Uop} {i : Word} {in64 : Bool} {s : State} {j : Iss.Jump}

theorem special_jump {f : BitVec 6} (h : jumps (Iss.decodeSpecial f) = true) :
    f.toNat = 8 ∨ f.toNat = 9 := by
  unfold Iss.decodeSpecial at h
  split at h
  all_goals first | exact Or.inl ‹_› | exact Or.inr ‹_› | exact absurd h (by decide)

theorem regimm_jump {rt : BitVec 5} (h : jumps (Iss.decodeRegimm rt) = true) :
    rt.toNat ∈ [0, 1, 2, 3, 16, 17, 18, 19] := by
  unfold Iss.decodeRegimm at h
  split at h
  all_goals
    first
    | exact absurd h (by decide)
    | rw [‹rt.toNat = _›]
      decide

/-- The words of the jumps and branches. -/
inductive JumpWord (i : Word) : Prop where
  | special (hop : i.opcode.toNat = 0) (hf : i.funct.toNat = 8 ∨ i.funct.toNat = 9)
  | regimm (hop : i.opcode.toNat = 1) (hrt : i.rt.toNat ∈ [0, 1, 2, 3, 16, 17, 18, 19])
  | opcode (hop : i.opcode.toNat ∈ [2, 3, 4, 5, 6, 7, 20, 21, 22, 23])

theorem jumpWord (hdec : decode in64 m.pred i = some u) (hjump : isJump i = true) :
    JumpWord i := by
  have hop := decode_opcode_lt hdec
  rw [isJump_eq] at hjump
  unfold Iss.decode at hjump
  split at hjump
  case h_1 hop => exact .special hop (special_jump hjump)
  case h_2 hop => exact .regimm hop (regimm_jump hjump)
  all_goals
    first
    | exact absurd hjump (by decide)
    | omega
    | refine .opcode ?_
      rw [‹i.opcode.toNat = _›]
      decide

/-- Where a jump goes in the core: J and JAL take the region of their own pc. -/
def coreTarget (i : Word) (pc : BitVec 64) (j : Iss.Jump) : BitVec 64 :=
  match Iss.decode i with
  | .j | .jal => fetchRegion i pc
  | _ => j.target

/-- What the core makes of a jump is what the interpreter has for it, but for the target of
J and JAL. -/
def TurnsLike (m : Micro) (u : Uop) (i : Word) (s : State) (j : Iss.Jump) : Prop :=
  Turns m u i s.pc (regs s) j.taken j.likely (coreTarget i s.pc j) j.link

/-- An instruction that is not J or JAL, whose turn is `j₁`. -/
theorem turnsLike_of {insn : Insn} {j₁ : Iss.Jump} (hinsn : Iss.decode i = insn)
    (hj : Iss.jumpOf i (Iss.decode i) s = some j) (hj₁ : Iss.jumpOf i insn s = some j₁)
    (htarget : coreTarget i s.pc j₁ = j₁.target)
    (h : Turns m u i s.pc (regs s) j₁.taken j₁.likely j₁.target j₁.link) :
    TurnsLike m u i s j := by
  rw [hinsn, hj₁] at hj
  cases hj
  unfold TurnsLike
  rw [htarget]
  exact h

theorem coreTarget_of {insn : Insn} (hinsn : Iss.decode i = insn) (hne : insn ≠ .j ∧ insn ≠ .jal) :
    coreTarget i s.pc j = j.target := by
  unfold coreTarget
  rw [hinsn]
  split
  · exact absurd rfl hne.1
  · exact absurd rfl hne.2
  · rfl

theorem special_turns (hop : i.opcode.toNat = 0) (hf : i.funct.toNat = 8 ∨ i.funct.toNat = 9)
    (hj : Iss.jumpOf i (Iss.decode i) s = some j) :
    TurnsLike m (decodeSpecial in64 m.pred i) i s j := by
  rcases hf with hf | hf
  · have hinsn : Iss.decode i = .jr := decode_special hop hf rfl
    have hu : decodeSpecial in64 m.pred i = jumpReg .jr i m.pred := by
      unfold decodeSpecial
      rw [hf]
      rfl
    rw [hu]
    exact turnsLike_of hinsn hj rfl (coreTarget_of hinsn (by decide)) (turns_jr hop hf)
  · have hinsn : Iss.decode i = .jalr := decode_special hop hf rfl
    have hu : decodeSpecial in64 m.pred i = decodeJalr i m.pred := by
      unfold decodeSpecial
      rw [hf]
      rfl
    rw [hu]
    exact turnsLike_of hinsn hj rfl (coreTarget_of hinsn (by decide)) (turns_jalr hop hf)

@[simp] theorem branchTo_taken (b : Bool) : (Iss.branchTo i s b).taken = b := rfl

@[simp] theorem likelyTo_taken (b : Bool) : (Iss.likelyTo i s b).taken = b := rfl

theorem sle_zero (a : BitVec 64) : a.sle 0#64 = (a.slt 0#64 || a == 0#64) :=
  BitVec.sle_eq_slt_or_eq

theorem zero_sle (a : BitVec 64) : BitVec.sle 0#64 a = !a.msb := BitVec.zero_sle_eq_not_msb

/-- BGEZAL, which of register zero is BAL. -/
theorem turns_bgezal {pc : BitVec 64} {r : Regs} (hop : i.opcode.toNat = 1)
    (hrt : i.rt.toNat = 17) (h0 : r.gpr 0#5 = 0) :
    Turns m (decodeRegimm m.pred i) i pc r (BitVec.sle 0 (r.gpr i.rs)) false (branchTarget i pc)
      (some 31) := by
  have hfetch {taken : Bool} : FetchesBranch m i pc taken :=
    fetches_either (Or.inr (by rw [predecode_regimm hop, hrt]; rfl))
  have hu : decodeRegimm m.pred i =
      { linking (branch1 (if i.rs = 0#5 then .bal else .bgezal) i m.pred) with
        srcAValid := i.rs != 0#5 } := by
    unfold decodeRegimm
    rw [hrt]
    rfl
  rw [hu, show BitVec.sle 0 (r.gpr i.rs) = !(r.gpr i.rs).msb from zero_sle _]
  by_cases hs : i.rs = 0#5
  · have htaken : (!(r.gpr i.rs).msb) = true := by rw [hs, h0]; decide
    rw [htaken]
    refine turns_branch (l := true) (a := m.junk.a) ?_ rfl rfl rfl rfl (fun _ => rfl) hfetch
    simp [linking, branch1, hs]
  · refine turns_branch (l := true) (a := r.gpr i.rs) ?_ rfl rfl rfl rfl (fun _ => rfl) hfetch
    simp [linking, branch1, hs]

theorem regimm_turns (hop : i.opcode.toNat = 1)
    (hrt : i.rt.toNat ∈ [0, 1, 2, 3, 16, 17, 18, 19]) (h0 : s.gpr 0#5 = 0)
    (hj : Iss.jumpOf i (Iss.decode i) s = some j) :
    TurnsLike m (decodeRegimm m.pred i) i s j := by
  have hpre := predecode_regimm hop
  simp only [List.mem_cons, List.not_mem_nil, or_false] at hrt
  rcases hrt with hrt | hrt | hrt | hrt | hrt | hrt | hrt | hrt
  · have hinsn : Iss.decode i = .bltz := decode_regimm hop hrt rfl
    have hu : decodeRegimm m.pred i = branch1 .bltz i m.pred := by
      unfold decodeRegimm
      rw [hrt]
      rfl
    rw [hu]
    refine turnsLike_of hinsn hj rfl (coreTarget_of hinsn (by decide)) (turns_branch1 ?_
      (fetches_either (Or.inl (by rw [hpre, hrt]; rfl))))
    simp [branch1, regs]
  · have hinsn : Iss.decode i = .bgez := decode_regimm hop hrt rfl
    have hu : decodeRegimm m.pred i = branch1 .bgez i m.pred := by
      unfold decodeRegimm
      rw [hrt]
      rfl
    rw [hu]
    refine turnsLike_of hinsn hj rfl (coreTarget_of hinsn (by decide)) (turns_branch1 ?_
      (fetches_either (Or.inl (by rw [hpre, hrt]; rfl))))
    simp [branch1, regs, zero_sle]
  · have hinsn : Iss.decode i = .bltzl := decode_regimm hop hrt rfl
    have hu : decodeRegimm m.pred i = likely1 .bltzl i m.pred := by
      unfold decodeRegimm
      rw [hrt]
      rfl
    rw [hu]
    refine turnsLike_of hinsn hj rfl (coreTarget_of hinsn (by decide)) (turns_likely1 (a := s.gpr i.rs) ?_
      (fetches_taken (Or.inl (by rw [hpre, hrt]; rfl))))
    simp [likely1, branch1, regs]
  · have hinsn : Iss.decode i = .bgezl := decode_regimm hop hrt rfl
    have hu : decodeRegimm m.pred i = likely1 .bgezl i m.pred := by
      unfold decodeRegimm
      rw [hrt]
      rfl
    rw [hu]
    refine turnsLike_of hinsn hj rfl (coreTarget_of hinsn (by decide)) (turns_likely1 (a := 0) ?_
      (fetches_taken (Or.inl (by rw [hpre, hrt]; rfl))))
    simp [likely1, branch1, regs]
  · have hinsn : Iss.decode i = .bltzal := decode_regimm hop hrt rfl
    have hu : decodeRegimm m.pred i = linking (branch1 .bltzal i m.pred) := by
      unfold decodeRegimm
      rw [hrt]
      rfl
    rw [hu]
    refine turnsLike_of hinsn hj rfl (coreTarget_of hinsn (by decide)) (turns_linking ?_
      (fetches_either (Or.inr (by rw [hpre, hrt]; rfl))))
    simp [linking, branch1, regs]
  · have hinsn : Iss.decode i = .bgezal := decode_regimm hop hrt rfl
    exact turnsLike_of hinsn hj rfl (coreTarget_of hinsn (by decide)) (turns_bgezal hop hrt h0)
  · have hinsn : Iss.decode i = .bltzall := decode_regimm hop hrt rfl
    have hu : decodeRegimm m.pred i = linking (likely1 .bltzall i m.pred) := by
      unfold decodeRegimm
      rw [hrt]
      rfl
    rw [hu]
    refine turnsLike_of hinsn hj rfl (coreTarget_of hinsn (by decide)) (turns_likelyLinking ?_
      (fetches_either (Or.inr (by rw [hpre, hrt]; rfl))))
    simp [linking, likely1, branch1, regs]
  · have hinsn : Iss.decode i = .bgezall := decode_regimm hop hrt rfl
    have hu : decodeRegimm m.pred i = linking (likely1 .bgezall i m.pred) := by
      unfold decodeRegimm
      rw [hrt]
      rfl
    rw [hu]
    refine turnsLike_of hinsn hj rfl (coreTarget_of hinsn (by decide)) (turns_likelyLinking ?_
      (fetches_either (Or.inr (by rw [hpre, hrt]; rfl))))
    simp [linking, likely1, branch1, regs, zero_sle]

/-- J and JAL. -/
theorem region_target {insn : Insn} {j₁ : Iss.Jump} (hinsn : Iss.decode i = insn)
    (hregion : insn = .j ∨ insn = .jal) : coreTarget i s.pc j₁ = fetchRegion i s.pc := by
  unfold coreTarget
  rw [hinsn]
  rcases hregion with rfl | rfl
  · rfl
  · rfl

/-- The jumps and branches that have an opcode of their own. -/
theorem opcode_turns (hdec : decode in64 m.pred i = some u)
    (hop : i.opcode.toNat ∈ [2, 3, 4, 5, 6, 7, 20, 21, 22, 23]) (h0 : s.gpr 0#5 = 0)
    (hj : Iss.jumpOf i (Iss.decode i) s = some j) : TurnsLike m u i s j := by
  simp only [List.mem_cons, List.not_mem_nil, or_false] at hop
  unfold decode at hdec
  rcases hop with hop | hop | hop | hop | hop | hop | hop | hop | hop | hop
  · rw [hop] at hdec
    cases hdec
    have hinsn : Iss.decode i = .j := decode_opcode hop (by decide) rfl
    rw [hinsn] at hj
    cases hj
    rw [TurnsLike, region_target hinsn (by decide)]
    exact turns_j hop
  · rw [hop] at hdec
    cases hdec
    have hinsn : Iss.decode i = .jal := decode_opcode hop (by decide) rfl
    rw [hinsn] at hj
    cases hj
    rw [TurnsLike, region_target hinsn (by decide)]
    exact turns_jal hop
  · rw [hop] at hdec
    cases hdec
    have hinsn : Iss.decode i = .beq := decode_opcode hop (by decide) rfl
    exact turnsLike_of hinsn hj rfl (coreTarget_of hinsn (by decide)) (turns_beq hop h0)
  · rw [hop] at hdec
    cases hdec
    have hinsn : Iss.decode i = .bne := decode_opcode hop (by decide) rfl
    exact turnsLike_of hinsn hj rfl (coreTarget_of hinsn (by decide)) (turns_bne hop h0)
  · rw [hop] at hdec
    cases hdec
    have hinsn : Iss.decode i = .blez := decode_opcode hop (by decide) rfl
    refine turnsLike_of hinsn hj rfl (coreTarget_of hinsn (by decide)) (turns_branch1 ?_
      (fetches_either (Or.inl (by rw [predecode_opcode hop (by decide)]; rfl))))
    simp [branch1, regs]
  · rw [hop] at hdec
    cases hdec
    have hinsn : Iss.decode i = .bgtz := decode_opcode hop (by decide) rfl
    refine turnsLike_of hinsn hj rfl (coreTarget_of hinsn (by decide)) (turns_branch1 ?_
      (fetches_either (Or.inl (by rw [predecode_opcode hop (by decide)]; rfl))))
    simp [branch1, regs]
  · rw [hop] at hdec
    cases hdec
    have hinsn : Iss.decode i = .beql := decode_opcode hop (by decide) rfl
    exact turnsLike_of hinsn hj rfl (coreTarget_of hinsn (by decide)) (turns_beql hop h0)
  · rw [hop] at hdec
    cases hdec
    have hinsn : Iss.decode i = .bnel := decode_opcode hop (by decide) rfl
    exact turnsLike_of hinsn hj rfl (coreTarget_of hinsn (by decide)) (turns_bnel hop h0)
  · rw [hop] at hdec
    cases hdec
    have hinsn : Iss.decode i = .blezl := decode_opcode hop (by decide) rfl
    refine turnsLike_of hinsn hj rfl (coreTarget_of hinsn (by decide)) (turns_likely1 (a := s.gpr i.rs) ?_
      (fetches_taken (Or.inl (by rw [predecode_opcode hop (by decide)]; rfl))))
    simp [likely1, branch1, regs, sle_zero]
  · rw [hop] at hdec
    cases hdec
    have hinsn : Iss.decode i = .bgtzl := decode_opcode hop (by decide) rfl
    refine turnsLike_of hinsn hj rfl (coreTarget_of hinsn (by decide)) (turns_likely1 (a := s.gpr i.rs) ?_
      (fetches_taken (Or.inl (by rw [predecode_opcode hop (by decide)]; rfl))))
    simp [likely1, branch1, regs]

/-- Every jump and branch of the core is that of the interpreter, but for the target of J and
JAL. -/
theorem turns_like (hdec : decode in64 m.pred i = some u) (h0 : s.gpr 0#5 = 0)
    (hj : Iss.jumpOf i (Iss.decode i) s = some j) : TurnsLike m u i s j := by
  have hjump : isJump i = true := by
    rw [isJump_eq]
    by_contra hnot
    have hnone := jumpOf_integer (i := i) (s := s) (decode_integer hdec) (by simpa using hnot)
    rw [hj] at hnone
    cases hnone
  rcases jumpWord hdec hjump with ⟨hop, hf⟩ | ⟨hop, hrt⟩ | hop
  · have hsys : ¬ (i.funct = 12 ∨ i.funct = 13) := by
      rintro (h | h)
      all_goals
        rw [h] at hf
        exact absurd hf (by decide)
    unfold decode at hdec
    rw [hop] at hdec
    replace hdec : (if i.funct = 12 ∨ i.funct = 13 then none
        else some (decodeSpecial in64 m.pred i)) = some u := hdec
    rw [if_neg hsys] at hdec
    cases hdec
    exact special_turns hop hf hj
  · unfold decode at hdec
    rw [hop] at hdec
    cases hdec
    exact regimm_turns hop hrt h0 hj
  · exact opcode_turns hdec hop h0 hj

end Classes

end Exec

end R9999
