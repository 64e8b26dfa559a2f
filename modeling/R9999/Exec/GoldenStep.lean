import R9999.Exec.PlainAgree

/-!
# One call of the interpreter

What `execMips` makes of a word that has been fetched, when the word is one of those that
the integer unit decodes.  An instruction that is not a jump does what `plainEffect` says,
and a jump or a branch what `runJump` says.
-/

namespace R9999

namespace Exec

open Iss (Word State Effect Insn Fpu Cpr0 Memory raiseGeneral)

/-- The instructions that are neither loads, stores nor of a coprocessor. -/
def integer (insn : Insn) : Bool :=
  match insn with
  | .lb | .lh | .lwl | .lw | .lbu | .lhu | .lwr | .lwu | .ldl | .ldr | .ld
  | .sb | .sh | .swl | .sw | .sdl | .sdr | .swr | .sd
  | .ll | .lld | .sc | .scd | .cache | .pref | .lwc1 | .ldc1 | .swc1 | .sdc1
  | .tlbr | .tlbwi | .tlbwr | .tlbp | .eret | .wait | .di | .ei
  | .mfc0 | .dmfc0 | .mtc0 | .dmtc0 | .bc1f | .bc1t | .bc1fl | .bc1tl
  | .mfc1 | .dmfc1 | .mtc1 | .dmtc1 | .cfc1 | .ctc1 | .fpOp => false
  | _ => true

/-- The jumps and branches among the instructions. -/
def jumps (insn : Insn) : Bool :=
  match insn with
  | .jr | .jalr | .j | .jal | .beq | .bne | .blez | .bgtz | .beql | .bnel | .blezl | .bgtzl
  | .bltz | .bgez | .bltzl | .bgezl | .bltzal | .bgezal | .bltzall | .bgezall => true
  | _ => false

theorem isJump_eq (i : Word) : isJump i = jumps (Iss.decode i) := rfl

section Decoded

variable {in64 : Bool} {p : Pred} {u : Uop} {i : Word}

theorem decode_opcode_lt (hdec : decode in64 p i = some u) :
    i.opcode.toNat < 16 ∨ 19 < i.opcode.toNat ∧ i.opcode.toNat < 26 := by
  unfold decode at hdec
  split at hdec
  all_goals first | omega | cases hdec

theorem special_integer (f : BitVec 6) : integer (Iss.decodeSpecial f) = true := by
  unfold Iss.decodeSpecial
  split
  all_goals rfl

theorem regimm_integer (rt : BitVec 5) : integer (Iss.decodeRegimm rt) = true := by
  unfold Iss.decodeRegimm
  split
  all_goals rfl

theorem decode_integer (hdec : decode in64 p i = some u) : integer (Iss.decode i) = true := by
  have hop := decode_opcode_lt hdec
  unfold Iss.decode
  split
  case h_1 => exact special_integer _
  case h_2 => exact regimm_integer _
  all_goals first | rfl | omega

theorem breakLink_of_decoded (hdec : decode in64 p i = some u) (s : State) :
    Iss.breakLink i s = s := by
  have hop := decode_opcode_lt hdec
  have hstore : Iss.isMemStore i = false := by
    unfold Iss.isMemStore
    dsimp only
    simp only [Bool.or_eq_false_iff, decide_eq_false_iff_not, beq_eq_false_iff_ne, ne_eq]
    bv_omega
  unfold Iss.breakLink
  rw [hstore, if_neg (by simp)]

theorem needsCoproc1_of_decoded (hdec : decode in64 p i = some u) :
    Iss.needsCoproc1 i = false := by
  have hop := decode_opcode_lt hdec
  unfold Iss.needsCoproc1
  split
  all_goals first | rfl | omega

end Decoded

section Execute

variable {in64 : Bool} {p : Pred} {u : Uop} {i : Word} {s : State} {fpu : Fpu}
  {run : State → Option (Bool × State)}

theorem coproc1_integer {insn : Insn} (h : integer insn = true) :
    Iss.coproc1 fpu i insn s = Iss.immediate i insn s := by
  cases insn
  all_goals first | rfl | exact absurd h (by decide)

theorem jumpOf_integer {insn : Insn} (h : integer insn = true) (hj : jumps insn = false) :
    Iss.jumpOf i insn s = none := by
  cases insn
  all_goals first | rfl | exact absurd h (by decide) | exact absurd hj (by decide)

/-- An instruction that is not a jump or a branch. -/
theorem execute_plain (hdec : decode in64 p i = some u) (hjump : isJump i = false) :
    Iss.execute fpu run i s = (plainEffect i s).finish := by
  have hint := decode_integer hdec
  unfold Iss.execute plainEffect
  dsimp only
  split
  case isTrue => rfl
  case isFalse =>
    rw [needsCoproc1_of_decoded hdec, breakLink_of_decoded hdec, if_neg (by simp),
      jumpOf_integer hint hjump, coproc1_integer hint]

/-- The jumps and branches need no 64-bit operations. -/
theorem gate_jump (hjump : isJump i = true) : Iss.is64bGated i = false := by
  rw [isJump_eq] at hjump
  unfold Iss.is64bGated
  split
  case h_5 hop =>
    split
    all_goals
      first
      | rfl
      | rw [decode_special hop ‹i.funct.toNat = _› rfl] at hjump
        exact absurd hjump (by decide)
  all_goals
    first
    | rfl
    | rw [decode_opcode ‹i.opcode.toNat = _› (by decide) rfl] at hjump
      exact absurd hjump (by decide)

/-- A jump or a branch. -/
theorem execute_jump {j : Iss.Jump} (hdec : decode in64 p i = some u)
    (hj : Iss.jumpOf i (Iss.decode i) s = some j) (hgate : Iss.is64bGated i = false) :
    Iss.execute fpu run i s = Iss.runJump run j s := by
  unfold Iss.execute
  rw [hgate, needsCoproc1_of_decoded hdec, breakLink_of_decoded hdec, if_neg (by simp),
    if_neg (by simp)]
  dsimp only
  rw [hj]

end Execute

section Outcome

variable {i : Word} {s : State}

/-- What the interpreter comes to, in the terms of the core. -/
def outcome (r : Bool × State) : Result where
  regs := settled r.2
  pc := r.2.pc
  cause := if r.1 then some (excCode r.2) else none

/-- What an instruction without a delay slot does besides the registers it writes: it leaves
the pc and coprocessor 0, or raises an exception with the general vector. -/
def Ends (s : State) : Effect → Prop
  | .next s₁ => s₁.pc = s.pc ∧ s₁.cpr0 = s.cpr0
  | .fault s₁ => ∃ code, s₁ = raiseGeneral code s
  | .stop => True

theorem special_ends (i : Word) (insn : Insn) (s : State) : Ends s (Iss.special i insn s) := by
  cases insn
  all_goals try exact ⟨rfl, rfl⟩
  all_goals try exact trivial
  case reserved => exact ⟨10, rfl⟩
  all_goals
    simp only [Iss.special, Iss.syscall, Iss.div32, Iss.divu32, Iss.div64, Iss.divu64, Iss.trapIf]
    split_ifs
    all_goals first | exact ⟨rfl, rfl⟩ | exact trivial | exact ⟨_, rfl⟩

theorem immediate_ends (i : Word) (insn : Insn) (s : State) :
    Ends s (Iss.immediate i insn s) := by
  cases insn
  all_goals simp only [Iss.immediate, Iss.trapIf]
  all_goals first | exact special_ends i _ s | exact ⟨rfl, rfl⟩ | skip
  all_goals
    split_ifs
    all_goals first | exact ⟨rfl, rfl⟩ | exact ⟨_, rfl⟩

theorem plainEffect_ends (i : Word) (s : State) : Ends s (plainEffect i s) := by
  unfold plainEffect
  split
  case isTrue => exact ⟨10, rfl⟩
  case isFalse => exact immediate_ends i _ s

/-- Where an instruction at `pc` without a delay slot goes. -/
def plainPc (sr : BitVec 32) (pc : BitVec 64) : Option (BitVec 5) → BitVec 64
  | none => pc + 4
  | some _ => generalVector sr

/-- An instruction without a delay slot in the interpreter. -/
theorem outcome_plain (i : Word) (s : State) :
    (plainEffect i s).finish.map outcome =
      (retired (plainEffect i s)).map fun r =>
        { regs := r.1, pc := plainPc (s.cpr0 Cpr0.sr) s.pc r.2, cause := r.2 } := by
  have hends := plainEffect_ends i s
  cases heffect : plainEffect i s with
  | stop => rfl
  | next s₁ =>
    rw [heffect] at hends
    show some (outcome (false, s₁.setPc (s₁.pc + 4))) = some _
    rw [hends.1]
    rfl
  | fault s₁ =>
    rw [heffect] at hends
    obtain ⟨code, rfl⟩ := hends
    show some (outcome (true, raiseGeneral code s)) = some _
    rw [outcome, raise_pc]
    rfl

end Outcome

section Fetch

variable {s : State} {i : Word}

/-- The state after a fetch that raises nothing. -/
def fetched (s : State) : State := { s.setGpr 0 0 with tlbFault := false }

/-- The fetch gives `i`. -/
def Fetches (s : State) (i : Word) : Prop :=
  (Iss.fetch s).2.tlbFault = false ∧ Memory.read (Iss.fetch s).2.mem (Iss.fetch s).1 4 = i

/-- A search of the TLB that raises nothing leaves the state as it is. -/
theorem camTranslate_state {g : Iss.MicroTlb} {s₁ : State} {va : BitVec 64}
    (h : (Iss.camTranslate g s₁ va .fetch).2.1.tlbFault = false) :
    (Iss.camTranslate g s₁ va .fetch).2.1 = s₁ := by
  have hraised {s₂ : State} {code : BitVec 32} {isRefill isXtlb : Bool}
      (h : (Iss.raiseTlb s₂ va code isRefill isXtlb).tlbFault = false) : False :=
    absurd (show true = false from h) (by decide)
  unfold Iss.camTranslate at h ⊢
  dsimp only at h ⊢
  split
  case h_1 hmiss =>
    rw [hmiss] at h
    exact (hraised h).elim
  case h_2 e hhit =>
    rw [hhit] at h
    simp only [reduceCtorEq, false_and, if_false] at h ⊢
    split_ifs at h ⊢
    · exact (hraised h).elim
    · rfl

theorem translate_state {s₁ : State} {va : BitVec 64}
    (h : (Iss.translate s₁ va .fetch).2.tlbFault = false) :
    (Iss.translate s₁ va .fetch).2 = s₁ := by
  unfold Iss.translate Iss.vaTranslate at h ⊢
  simp only [reduceCtorEq, if_false, false_and] at h ⊢
  split
  case h_1 => rfl
  case h_2 hmapped =>
    simp only [hmapped] at h
    exact camTranslate_state h

theorem fetch_state (h : (Iss.fetch s).2.tlbFault = false) : (Iss.fetch s).2 = fetched s :=
  translate_state h

theorem execMips_fetched {fpu : Iss.Fpu} {n : Nat} (h : Fetches s i) :
    Iss.execMips fpu (n + 1) s = Iss.execute fpu (Iss.execMips fpu n) i (fetched s) := by
  have hstate := fetch_state h.1
  have hword := h.2
  rw [Iss.execMips, h.1, if_neg (by decide), hword, hstate]

end Fetch

end Exec

end R9999
