import R9999.Exec.Golden

/-!
# The instructions without a delay slot, in the core and in the interpreter

The two retire the same registers and the same exception, unless the divisor is zero, which
the architecture leaves open.  They differ for four kinds of instruction (`PlainOk`): MULT
of registers whose product is not that of their low words, DIVU by a register that is zero
in its low word alone, the shifts by 32 and more without 64-bit operations, and the reserved
words of opcode 1.
-/

namespace R9999

namespace Exec

open Iss (Word State Effect Insn lo32 sext32 sext64 flag Cpr0 addOverflows subOverflows)

/-- The jumps and branches. -/
def isJump (i : Word) : Bool :=
  match Iss.decode i with
  | .jr | .jalr | .j | .jal | .beq | .bne | .blez | .bgtz | .beql | .bnel | .blezl | .bgtzl
  | .bltz | .bgez | .bltzl | .bgezl | .bltzal | .bgezal | .bltzall | .bgezall => true
  | _ => false

/-- A divide whose divisor is zero. -/
def divides (insn : Insn) (b : BitVec 64) : Prop :=
  match insn with
  | .div | .divu => lo32 b = 0
  | .ddiv | .ddivu => b = 0
  | _ => False

/-- A word that divides by zero. -/
def DividesByZero (i : Word) (r : Regs) : Prop := divides (Iss.decode i) (r.gpr i.rt)

/-- The interpreter does with an instruction what the core does. -/
def insnOk (in64 : Bool) (insn : Insn) (a b : BitVec 64) : Prop :=
  match insn with
  | .mult => MultOk a b
  | .divu => lo32 b = 0 → b = 0
  | .dsll32 | .dsrl32 | .dsra32 => in64 = true
  | .regimm13 | .unhandled => False
  | _ => True

/-- The interpreter does with a word what the core does. -/
def PlainOk (in64 : Bool) (i : Word) (r : Regs) : Prop :=
  insnOk in64 (Iss.decode i) (r.gpr i.rs) (r.gpr i.rt)

/-- What the interpreter does with an instruction that is not a jump or a branch. -/
def plainEffect (i : Word) (s : State) : Effect :=
  if Iss.is64bGated i ∧ Iss.in64bMode s = false then .fault (Iss.takeExceptionRi s)
  else Iss.immediate i (Iss.decode i) s

/-- The interpreter's step of an instruction is defined, and with a nonzero divisor it is
that of an operation `u` in the core. -/
def PlainAgrees (x : Junk) (u : Uop) (pc : BitVec 64) (i : Word) (s : State) : Prop :=
  (retired (plainEffect i s)).isSome ∧
    (¬ DividesByZero i (regs s) → retired (plainEffect i s) = some (retire x u pc (regs s)))

/-- The two decide by the same bits of Status whether 64-bit operations are allowed. -/
theorem in64bOps_eq (s : State) : in64bOps (s.cpr0 Cpr0.sr) = Iss.in64bMode s := by
  unfold in64bOps Iss.in64bMode
  dsimp only
  congr 1

section Cases

variable {x : Junk} {u : Uop} {pc : BitVec 64} {i : Word} {s : State} {insn : Insn} {k : Nat}

/-- The fields of a word that has nothing but a function field. -/
theorem special_fields (hk : k < 64) :
    Word.opcode (BitVec.ofNat 32 k) = 0 ∧ (Word.funct (BitVec.ofNat 32 k)).toNat = k := by
  have hmod : k % 2 ^ 32 = k := by omega
  constructor
  · apply BitVec.eq_of_toNat_eq
    rw [Word.opcode, BitVec.extractLsb'_toNat, BitVec.toNat_ofNat, hmod,
      Nat.shiftRight_eq_div_pow, Nat.div_eq_of_lt (by omega)]
    rfl
  · rw [Word.funct, BitVec.extractLsb'_toNat, BitVec.toNat_ofNat, hmod, Nat.shiftRight_zero,
      Nat.mod_eq_of_lt hk]

/-- The words of opcode 0 are decoded by their functions. -/
theorem decode_special (hop : i.opcode.toNat = 0) (hf : i.funct.toNat = k)
    (hinsn : Iss.decode (BitVec.ofNat 32 k) = insn) : Iss.decode i = insn := by
  have hk : k < 64 := hf ▸ i.funct.isLt
  obtain ⟨hop', hf'⟩ := special_fields hk
  have hfunct : Word.funct (BitVec.ofNat 32 k) = i.funct := BitVec.eq_of_toNat_eq (hf'.trans hf.symm)
  rw [← hinsn]
  unfold Iss.decode
  rw [hop, hop', hfunct]
  rfl

/-- Whether they need 64-bit operations goes by their functions, too. -/
theorem gate_special {b : Bool} (hop : i.opcode.toNat = 0) (hf : i.funct.toNat = k)
    (hgate : Iss.is64bGated (BitVec.ofNat 32 k) = b) : Iss.is64bGated i = b := by
  have hk : k < 64 := hf ▸ i.funct.isLt
  obtain ⟨hop', hf'⟩ := special_fields hk
  rw [← hgate]
  unfold Iss.is64bGated
  rw [hop, hop', hf, hf']
  rfl

theorem effect_ungated (hdec : Iss.decode i = insn) (hgate : Iss.is64bGated i = false) :
    plainEffect i s = Iss.immediate i insn s := by
  unfold plainEffect
  rw [hgate, hdec, if_neg (by simp)]

theorem effect_gated (hdec : Iss.decode i = insn) (hgate : Iss.is64bGated i = true) :
    plainEffect i s =
      if Iss.in64bMode s = false then .fault (Iss.takeExceptionRi s)
      else Iss.immediate i insn s := by
  unfold plainEffect
  rw [hgate, hdec]
  simp only [true_and]

theorem plainOk_of (hdec : Iss.decode i = insn)
    (hok : ∀ a b, insnOk (Iss.in64bMode s) insn a b) :
    PlainOk (Iss.in64bMode s) i (regs s) := by
  rw [PlainOk, hdec]
  exact hok _ _

/-- An instruction on which the two always agree. -/
theorem ordinary (hdec : Iss.decode i = insn)
    (hok : ∀ a b, insnOk (Iss.in64bMode s) insn a b)
    (hgate : Iss.is64bGated i = false)
    (h : retired (Iss.immediate i insn s) = some (retire x u pc (regs s))) :
    PlainAgrees x u pc i s ↔ PlainOk (Iss.in64bMode s) i (regs s) := by
  refine iff_of_true ?_ (plainOk_of hdec hok)
  rw [PlainAgrees, effect_ungated hdec hgate, h]
  exact ⟨rfl, fun _ => rfl⟩

/-- An instruction that needs 64-bit operations and on which the two always agree, if its
divisor is not zero. -/
theorem ordinary_gated (hdec : Iss.decode i = insn)
    (hok : ∀ a b, insnOk (Iss.in64bMode s) insn a b)
    (hgate : Iss.is64bGated i = true) (h0 : s.gpr 0#5 = 0)
    (hsome : (retired (Iss.immediate i insn s)).isSome)
    (h : ¬ divides insn (s.gpr i.rt) →
      retired (Iss.immediate i insn s) = some (retire x u pc (regs s))) :
    PlainAgrees x (gated (in64bOps (s.cpr0 Cpr0.sr)) u) pc i s ↔
      PlainOk (Iss.in64bMode s) i (regs s) := by
  refine iff_of_true ?_ (plainOk_of hdec hok)
  rw [PlainAgrees, effect_gated hdec hgate, in64bOps_eq, DividesByZero, hdec]
  cases hmode : Iss.in64bMode s with
  | true => exact ⟨hsome, h⟩
  | false =>
    have hri : retired (.fault (Iss.takeExceptionRi s)) = some (regs s, some 10) :=
      raise_retired s 10 h0
    have hii : retire x (gated false u) pc (regs s) = (regs s, some 10) := retire_ii rfl
    rw [if_pos rfl, hri, hii]
    exact ⟨rfl, fun _ => rfl⟩

/-- A divide, or another instruction on which the two agree but for a zero divisor. -/
theorem ordinary_divide (hdec : Iss.decode i = insn)
    (hok : ∀ a b, insnOk (Iss.in64bMode s) insn a b) (hgate : Iss.is64bGated i = false)
    (hsome : (retired (Iss.immediate i insn s)).isSome)
    (h : ¬ divides insn (s.gpr i.rt) →
      retired (Iss.immediate i insn s) = some (retire x u pc (regs s))) :
    PlainAgrees x u pc i s ↔ PlainOk (Iss.in64bMode s) i (regs s) := by
  refine iff_of_true ?_ (plainOk_of hdec hok)
  rw [PlainAgrees, effect_ungated hdec hgate, DividesByZero, hdec]
  exact ⟨hsome, h⟩

/-- A function of opcode 0 on which the two always agree. -/
theorem plain_function (hop : i.opcode.toNat = 0) (hf : i.funct.toNat = k)
    (hinsn : Iss.decode (BitVec.ofNat 32 k) = insn)
    (hgate : Iss.is64bGated (BitVec.ofNat 32 k) = false)
    (hok : ∀ a b, insnOk (Iss.in64bMode s) insn a b)
    (h : retired (Iss.immediate i insn s) = some (retire x u pc (regs s))) :
    PlainAgrees x u pc i s ↔ PlainOk (Iss.in64bMode s) i (regs s) :=
  ordinary (decode_special hop hf hinsn) hok (gate_special hop hf hgate) h

/-- A function of opcode 0 that needs 64-bit operations. -/
theorem wide_function (hop : i.opcode.toNat = 0) (hf : i.funct.toNat = k)
    (hinsn : Iss.decode (BitVec.ofNat 32 k) = insn)
    (hgate : Iss.is64bGated (BitVec.ofNat 32 k) = true)
    (hok : ∀ a b, insnOk (Iss.in64bMode s) insn a b) (h0 : s.gpr 0#5 = 0)
    (h : retired (Iss.immediate i insn s) = some (retire x u pc (regs s))) :
    PlainAgrees x (gated (in64bOps (s.cpr0 Cpr0.sr)) u) pc i s ↔
      PlainOk (Iss.in64bMode s) i (regs s) := by
  have hsome : (retired (Iss.immediate i insn s)).isSome := by rw [h]; rfl
  exact ordinary_gated (decode_special hop hf hinsn) hok (gate_special hop hf hgate) h0 hsome
    fun _ => h

end Cases

section Exceptions

variable {x : Junk} {u : Uop} {pc : BitVec 64} {i : Word} {s : State} {insn : Insn}

/-- The shifts by 32 and more, which the interpreter does not gate. -/
theorem shift32_agrees {v : BitVec 64} (hdec : Iss.decode i = insn)
    (hgate : Iss.is64bGated i = false) (h0 : s.gpr 0#5 = 0)
    (hok : ∀ in64 a b, insnOk in64 insn a b ↔ in64 = true) (hdiv : ∀ b, ¬ divides insn b)
    (hinsn : Iss.immediate i insn s = Iss.write s i.rd v)
    (h : retire x u pc (regs s) = ((regs s).put i.rd v, none)) :
    PlainAgrees x (gated (in64bOps (s.cpr0 Cpr0.sr)) u) pc i s ↔
      PlainOk (Iss.in64bMode s) i (regs s) := by
  have heffect : retired (plainEffect i s) = some ((regs s).put i.rd v, none) := by
    rw [effect_ungated hdec hgate, hinsn, write_retired h0]
  rw [PlainAgrees, PlainOk, DividesByZero, hdec, hok, in64bOps_eq, heffect]
  cases hmode : Iss.in64bMode s with
  | true => exact iff_of_true ⟨rfl, fun _ => by rw [gated, if_pos rfl, h]⟩ rfl
  | false =>
    have hii : retire x (gated false u) pc (regs s) = (regs s, some 10) := retire_ii rfl
    rw [hii]
    refine iff_of_false (fun hall => ?_) (by decide)
    exact absurd (hall.2 (hdiv _)) (by simp)

theorem sext64_inj {a b : BitVec 32} (h : sext64 a = sext64 b) : a = b := by
  have hlow : ∀ c : BitVec 32, (sext64 c).setWidth 32 = c := fun c =>
    (setWidth_signExtend c (by decide)).trans (BitVec.setWidth_eq c)
  rw [← hlow a, ← hlow b, h]

/-- HI and LO tell the product that they were written with. -/
theorem putProduct_inj {r : Regs} {y y' : BitVec 64} (h : r.putProduct y = r.putProduct y') :
    y = y' := by
  have hhi : (y >>> 32).setWidth 32 = (y' >>> 32).setWidth 32 := sext64_inj (congrArg Regs.hi h)
  have hlo : y.setWidth 32 = y'.setWidth 32 := sext64_inj (congrArg Regs.lo h)
  apply BitVec.eq_of_getLsbD_eq
  intro i hi
  by_cases hlow : i < 32
  · have hbit := congrArg (BitVec.getLsbD · i) hlo
    simpa [hlow] using hbit
  · have hbit := congrArg (BitVec.getLsbD · (i - 32)) hhi
    have hsub : i - 32 < 32 := by omega
    have hadd : 32 + (i - 32) = i := by omega
    simpa [hsub, hadd] using hbit

/-- MULT. -/
theorem mult_agrees (hdec : Iss.decode i = .mult) (hgate : Iss.is64bGated i = false)
    (h0 : s.gpr 0#5 = 0) :
    PlainAgrees x (mulDiv .mult i) pc i s ↔ PlainOk (Iss.in64bMode s) i (regs s) := by
  have heffect : retired (plainEffect i s) =
      some ((regs s).putProduct ((lo32 (s.gpr i.rs)).signExtend 64 *
        (lo32 (s.gpr i.rt)).signExtend 64), none) := by
    rw [effect_ungated hdec hgate]
    exact setHiLo_retired h0 _ _
  rw [PlainAgrees, PlainOk, DividesByZero, hdec, heffect, retire_mult]
  show _ ↔ MultOk (s.gpr i.rs) (s.gpr i.rt)
  constructor
  · intro hall
    have hregs := congrArg Prod.fst (Option.some.inj (hall.2 id))
    exact (putProduct_inj hregs).symm
  · intro hok
    refine ⟨rfl, fun _ => ?_⟩
    rw [← show _ = _ from hok]
    rfl

/-- DIV. -/
theorem div_agrees (hdec : Iss.decode i = .div) (hgate : Iss.is64bGated i = false)
    (h0 : s.gpr 0#5 = 0) :
    PlainAgrees x (mulDiv .div i) pc i s ↔ PlainOk (Iss.in64bMode s) i (regs s) := by
  refine ordinary_divide hdec (fun _ _ => trivial) hgate ?_ fun hdiv => ?_
  · show (retired (Iss.div32 s _ _)).isSome
    unfold Iss.div32
    split <;> rfl
  · have hne : lo32 ((regs s).gpr i.rt) ≠ 0 := hdiv
    rw [retire_div i hne]
    show retired (Iss.div32 s (lo32 (s.gpr i.rs)) (lo32 (s.gpr i.rt))) = _
    unfold Iss.div32
    rw [if_neg (show ¬ lo32 (s.gpr i.rt) = 0 from hdiv)]
    exact setHiLo_retired h0 _ _

/-- DIVU: the interpreter divides by zero when the register is zero in its low word alone. -/
theorem divu_agrees (hdec : Iss.decode i = .divu) (hgate : Iss.is64bGated i = false)
    (h0 : s.gpr 0#5 = 0) :
    PlainAgrees x (mulDiv .divu i) pc i s ↔ PlainOk (Iss.in64bMode s) i (regs s) := by
  rw [PlainAgrees, PlainOk, DividesByZero, hdec, effect_ungated hdec hgate]
  show (retired (Iss.divu32 s (s.gpr i.rs) (s.gpr i.rt))).isSome ∧
    (¬ lo32 (s.gpr i.rt) = 0 → retired (Iss.divu32 s (s.gpr i.rs) (s.gpr i.rt)) = _) ↔
      (lo32 (s.gpr i.rt) = 0 → s.gpr i.rt = 0)
  unfold Iss.divu32
  by_cases hlow : lo32 (s.gpr i.rt) = 0
  · by_cases hzero : s.gpr i.rt = 0
    · rw [if_pos hzero]
      exact iff_of_true ⟨rfl, fun hne => absurd hlow hne⟩ fun _ => hzero
    · rw [if_neg hzero, if_pos hlow]
      exact iff_of_false (fun hall => absurd hall.1 (by decide)) fun himp => hzero (himp hlow)
  · have hzero : s.gpr i.rt ≠ 0 := fun h => hlow (by rw [h]; rfl)
    have hne : lo32 ((regs s).gpr i.rt) ≠ 0 := hlow
    rw [if_neg hzero, if_neg hlow, retire_divu i hne]
    refine iff_of_true ⟨rfl, fun _ => ?_⟩ fun h => absurd h hlow
    exact setHiLo_retired h0 _ _

/-- DDIV, with the one overflow that the host does not divide for. -/
theorem ddiv_agrees (hdec : Iss.decode i = .ddiv) (hgate : Iss.is64bGated i = true)
    (h0 : s.gpr 0#5 = 0) :
    PlainAgrees x (gated (in64bOps (s.cpr0 Cpr0.sr)) (mulDiv .ddiv i)) pc i s ↔
      PlainOk (Iss.in64bMode s) i (regs s) := by
  refine ordinary_gated hdec (fun _ _ => trivial) hgate h0 ?_ fun hdiv => ?_
  · show (retired (Iss.div64 s _ _)).isSome
    unfold Iss.div64
    split_ifs <;> rfl
  · have hne : (regs s).gpr i.rt ≠ 0 := hdiv
    rw [retire_ddiv i hne]
    show retired (Iss.div64 s (s.gpr i.rs) (s.gpr i.rt)) = _
    unfold Iss.div64
    rw [if_neg (show ¬ s.gpr i.rt = 0 from hdiv)]
    split
    case isTrue hmin =>
      have hsrem : ((regs s).gpr i.rs).srem ((regs s).gpr i.rt) = 0 := by
        show (s.gpr i.rs).srem (s.gpr i.rt) = 0
        rw [hmin.1, hmin.2]
        decide
      have hsdiv : ((regs s).gpr i.rs).sdiv ((regs s).gpr i.rt) = s.gpr i.rs := by
        show (s.gpr i.rs).sdiv (s.gpr i.rt) = s.gpr i.rs
        rw [hmin.1, hmin.2]
        decide
      rw [hsrem, hsdiv]
      exact setHiLo_retired h0 _ _
    case isFalse => exact setHiLo_retired h0 _ _

/-- DDIVU. -/
theorem ddivu_agrees (hdec : Iss.decode i = .ddivu) (hgate : Iss.is64bGated i = true)
    (h0 : s.gpr 0#5 = 0) :
    PlainAgrees x (gated (in64bOps (s.cpr0 Cpr0.sr)) (mulDiv .ddivu i)) pc i s ↔
      PlainOk (Iss.in64bMode s) i (regs s) := by
  refine ordinary_gated hdec (fun _ _ => trivial) hgate h0 ?_ fun hdiv => ?_
  · show (retired (Iss.divu64 s _ _)).isSome
    unfold Iss.divu64
    split <;> rfl
  · have hne : (regs s).gpr i.rt ≠ 0 := hdiv
    rw [retire_ddivu i hne]
    show retired (Iss.divu64 s (s.gpr i.rs) (s.gpr i.rt)) = _
    unfold Iss.divu64
    rw [if_neg (show ¬ s.gpr i.rt = 0 from hdiv)]
    exact setHiLo_retired h0 _ _

/-- OR, which the interpreter skips without a destination. -/
theorem or_retired (h0 : s.gpr 0#5 = 0) :
    retired (Iss.immediate i .or s) =
      some ((regs s).put i.rd (s.gpr i.rs ||| s.gpr i.rt), none) := by
  show retired (if i.rd ≠ 0 then Iss.write s i.rd (s.gpr i.rs ||| s.gpr i.rt) else .next s) = _
  split
  case isTrue => exact write_retired h0 _ _
  case isFalse hd =>
    rw [next_retired h0, Regs.put, if_pos (show i.rd = 0#5 from not_not.mp hd)]

end Exceptions

section Special

variable {x : Junk} {pc : BitVec 64} {i : Word} {s : State} {p : Pred}

/-- The instructions of opcode 0. -/
theorem special_agrees (hop : i.opcode.toNat = 0) (hsys : i.funct ≠ 12) (hbrk : i.funct ≠ 13)
    (hjump : isJump i = false) (h0 : s.gpr 0#5 = 0) :
    PlainAgrees x (decodeSpecial (in64bOps (s.cpr0 Cpr0.sr)) p i) pc i s ↔
      PlainOk (Iss.in64bMode s) i (regs s) := by
  unfold decodeSpecial
  split
  case h_1 hf =>
    refine plain_function hop hf rfl rfl (fun _ _ => trivial) ?_
    rw [retire_sll i h0]
    exact write_retired h0 _ _
  case h_2 hf =>
    refine plain_function hop hf rfl rfl (fun _ _ => trivial) ?_
    rw [retire_srl i h0]
    exact write_retired h0 _ _
  case h_3 hf =>
    refine plain_function hop hf rfl rfl (fun _ _ => trivial) ?_
    rw [retire_sra i h0]
    exact write_retired h0 _ _
  case h_4 hf =>
    refine plain_function hop hf rfl rfl (fun _ _ => trivial) ?_
    rw [retire_sllv i]
    exact write_retired h0 _ _
  case h_5 hf =>
    refine plain_function hop hf rfl rfl (fun _ _ => trivial) ?_
    rw [retire_srlv i]
    exact write_retired h0 _ _
  case h_6 hf =>
    refine plain_function hop hf rfl rfl (fun _ _ => trivial) ?_
    rw [retire_srav i]
    exact write_retired h0 _ _
  case h_7 hf =>
    refine wide_function hop hf rfl rfl (fun _ _ => trivial) h0 ?_
    rw [retire_dsllv i]
    exact write_retired h0 _ _
  case h_8 hf =>
    refine wide_function hop hf rfl rfl (fun _ _ => trivial) h0 ?_
    rw [retire_dsrlv i]
    exact write_retired h0 _ _
  case h_9 hf =>
    refine wide_function hop hf rfl rfl (fun _ _ => trivial) h0 ?_
    rw [retire_dsrav i]
    exact write_retired h0 _ _
  case h_10 hf =>
    refine wide_function hop hf rfl rfl (fun _ _ => trivial) h0 ?_
    rw [retire_dsll i]
    exact write_retired h0 _ _
  case h_11 hf =>
    refine wide_function hop hf rfl rfl (fun _ _ => trivial) h0 ?_
    rw [retire_dsrl i]
    exact write_retired h0 _ _
  case h_12 hf =>
    refine wide_function hop hf rfl rfl (fun _ _ => trivial) h0 ?_
    rw [retire_dsra i]
    exact write_retired h0 _ _
  case h_13 hf =>
    exact shift32_agrees (decode_special hop hf rfl) (gate_special hop hf rfl) h0
      (fun _ _ _ => Iff.rfl) (fun _ => id) rfl (retire_dsll32 i)
  case h_14 hf =>
    exact shift32_agrees (decode_special hop hf rfl) (gate_special hop hf rfl) h0
      (fun _ _ _ => Iff.rfl) (fun _ => id) rfl (retire_dsrl32 i)
  case h_15 hf =>
    exact shift32_agrees (decode_special hop hf rfl) (gate_special hop hf rfl) h0
      (fun _ _ _ => Iff.rfl) (fun _ => id) rfl (retire_dsra32 i)
  case h_16 hf =>
    have hdec : Iss.decode i = .jr := decode_special hop hf rfl
    simp [isJump, hdec] at hjump
  case h_17 hf =>
    have hdec : Iss.decode i = .jalr := decode_special hop hf rfl
    simp [isJump, hdec] at hjump
  case h_18 hf =>
    refine plain_function hop hf rfl rfl (fun _ _ => trivial) ?_
    rw [retire_nop rfl]
    exact next_retired h0
  case h_19 hf =>
    refine plain_function hop hf rfl rfl (fun _ _ => trivial) ?_
    rw [retire_mfhi i]
    exact write_retired h0 _ _
  case h_20 hf =>
    refine plain_function hop hf rfl rfl (fun _ _ => trivial) ?_
    rw [retire_mthi i]
    exact setHiLo_retired h0 _ _
  case h_21 hf =>
    refine plain_function hop hf rfl rfl (fun _ _ => trivial) ?_
    rw [retire_mflo i]
    exact write_retired h0 _ _
  case h_22 hf =>
    refine plain_function hop hf rfl rfl (fun _ _ => trivial) ?_
    rw [retire_mtlo i]
    exact setHiLo_retired h0 _ _
  case h_23 hf => exact mult_agrees (decode_special hop hf rfl) (gate_special hop hf rfl) h0
  case h_24 hf =>
    refine plain_function hop hf rfl rfl (fun _ _ => trivial) ?_
    rw [retire_multu i]
    exact setHiLo_retired h0 _ _
  case h_25 hf => exact div_agrees (decode_special hop hf rfl) (gate_special hop hf rfl) h0
  case h_26 hf => exact divu_agrees (decode_special hop hf rfl) (gate_special hop hf rfl) h0
  case h_27 hf =>
    refine wide_function hop hf rfl rfl (fun _ _ => trivial) h0 ?_
    rw [retire_dmult i]
    exact setHiLo_retired h0 _ _
  case h_28 hf =>
    refine wide_function hop hf rfl rfl (fun _ _ => trivial) h0 ?_
    rw [retire_dmultu i]
    exact setHiLo_retired h0 _ _
  case h_29 hf => exact ddiv_agrees (decode_special hop hf rfl) (gate_special hop hf rfl) h0
  case h_30 hf => exact ddivu_agrees (decode_special hop hf rfl) (gate_special hop hf rfl) h0
  case h_31 hf =>
    refine plain_function hop hf rfl rfl (fun _ _ => trivial) ?_
    rw [retire_add i]
    exact checked_retired h0 _ _ _
  case h_32 hf =>
    refine plain_function hop hf rfl rfl (fun _ _ => trivial) ?_
    rw [retire_addu i h0]
    exact write_retired h0 _ _
  case h_33 hf =>
    refine plain_function hop hf rfl rfl (fun _ _ => trivial) ?_
    rw [retire_sub i h0]
    exact checked_retired h0 _ _ _
  case h_34 hf =>
    refine plain_function hop hf rfl rfl (fun _ _ => trivial) ?_
    rw [retire_subu i h0]
    exact write_retired h0 _ _
  case h_35 hf =>
    refine plain_function hop hf rfl rfl (fun _ _ => trivial) ?_
    rw [retire_and i h0]
    exact write_retired h0 _ _
  case h_36 hf =>
    refine plain_function hop hf rfl rfl (fun _ _ => trivial) ?_
    rw [retire_or i h0]
    exact or_retired h0
  case h_37 hf =>
    refine plain_function hop hf rfl rfl (fun _ _ => trivial) ?_
    rw [retire_xor i h0]
    exact write_retired h0 _ _
  case h_38 hf =>
    refine plain_function hop hf rfl rfl (fun _ _ => trivial) ?_
    rw [retire_nor i h0]
    exact write_retired h0 _ _
  case h_39 hf =>
    refine plain_function hop hf rfl rfl (fun _ _ => trivial) ?_
    rw [retire_slt i h0]
    exact write_retired h0 _ _
  case h_40 hf =>
    refine plain_function hop hf rfl rfl (fun _ _ => trivial) ?_
    rw [retire_sltu i h0]
    exact write_retired h0 _ _
  case h_41 hf =>
    refine wide_function hop hf rfl rfl (fun _ _ => trivial) h0 ?_
    rw [retire_dadd i]
    exact checked_retired h0 _ _ _
  case h_42 hf =>
    refine wide_function hop hf rfl rfl (fun _ _ => trivial) h0 ?_
    rw [retire_daddu i h0]
    exact write_retired h0 _ _
  case h_43 hf =>
    refine wide_function hop hf rfl rfl (fun _ _ => trivial) h0 ?_
    rw [retire_dsub i]
    exact checked_retired h0 _ _ _
  case h_44 hf =>
    refine wide_function hop hf rfl rfl (fun _ _ => trivial) h0 ?_
    rw [retire_dsubu i]
    exact write_retired h0 _ _
  case h_45 hf =>
    refine plain_function hop hf rfl rfl (fun _ _ => trivial) ?_
    rw [retire_tge i]
    exact trapIf_retired h0 _
  case h_46 hf =>
    refine plain_function hop hf rfl rfl (fun _ _ => trivial) ?_
    rw [retire_tgeu i h0]
    exact trapIf_retired h0 _
  case h_47 hf =>
    refine plain_function hop hf rfl rfl (fun _ _ => trivial) ?_
    rw [retire_tlt i]
    exact trapIf_retired h0 _
  case h_48 hf =>
    refine plain_function hop hf rfl rfl (fun _ _ => trivial) ?_
    rw [retire_tltu i h0]
    exact trapIf_retired h0 _
  case h_49 hf =>
    refine plain_function hop hf rfl rfl (fun _ _ => trivial) ?_
    rw [retire_teq i h0]
    exact trapIf_retired h0 _
  case h_50 hf =>
    refine plain_function hop hf rfl rfl (fun _ _ => trivial) ?_
    rw [retire_tne i h0]
    exact trapIf_retired h0 _
  case h_51 =>
    have hdec : Iss.decode i = .reserved := by
      unfold Iss.decode
      rw [hop]
      show Iss.decodeSpecial i.funct = .reserved
      unfold Iss.decodeSpecial
      split
      case h_9 hf => exact absurd (BitVec.eq_of_toNat_eq hf) hsys
      case h_10 hf => exact absurd (BitVec.eq_of_toNat_eq hf) hbrk
      all_goals first | rfl | exact absurd ‹i.funct.toNat = _› ‹_›
    have hgate : Iss.is64bGated i = false := by
      unfold Iss.is64bGated
      simp only [hop]
    refine ordinary hdec (fun _ _ => trivial) hgate ?_
    rw [retire_ii rfl]
    exact raise_retired s 10 h0

end Special

section Others

variable {x : Junk} {pc : BitVec 64} {i : Word} {s : State} {p : Pred} {insn : Insn} {k : Nat}

/-- The words of opcode 1 are decoded by `rt`. -/
theorem decode_regimm (hop : i.opcode.toNat = 1) (hrt : i.rt.toNat = k)
    (hinsn : Iss.decodeRegimm (BitVec.ofNat 5 k) = insn) : Iss.decode i = insn := by
  have heq : i.rt = BitVec.ofNat 5 k := by rw [← hrt, BitVec.ofNat_toNat, BitVec.setWidth_eq]
  unfold Iss.decode
  rw [hop]
  show Iss.decodeRegimm i.rt = insn
  rw [heq, hinsn]

/-- The other opcodes name their instruction, which is that of a word of that opcode. -/
theorem decode_opcode (hop : i.opcode.toNat = k) (hk : 1 < k ∧ k < 16 ∨ 18 < k)
    (hinsn : Iss.decode (BitVec.ofNat 32 (k * 2 ^ 26)) = insn) : Iss.decode i = insn := by
  have hlt : k < 64 := hop ▸ i.opcode.isLt
  have hop' : (Word.opcode (BitVec.ofNat 32 (k * 2 ^ 26))).toNat = k := by
    rw [Word.opcode, BitVec.extractLsb'_toNat, BitVec.toNat_ofNat, Nat.shiftRight_eq_div_pow]
    omega
  rw [← hinsn]
  unfold Iss.decode
  rw [hop, hop']
  split
  all_goals first | rfl | omega

/-- Only opcode 0 and the opcodes of the immediate operations have words that need 64-bit
operations. -/
theorem gate_opcode {o : Nat} (hop : i.opcode.toNat = o) (ho : 0 < o ∧ o < 24) :
    Iss.is64bGated i = false := by
  unfold Iss.is64bGated
  rw [hop]
  split
  all_goals first | omega | rfl

theorem gate_wide {o : Nat} (hop : i.opcode.toNat = o) (ho : o = 24 ∨ o = 25) :
    Iss.is64bGated i = true := by
  unfold Iss.is64bGated
  rcases ho with rfl | rfl
  all_goals
    rw [hop]
    rfl

/-- The reserved words of opcode 1. -/
theorem reserved_agrees (hgate : Iss.is64bGated i = false) (h0 : s.gpr 0#5 = 0)
    (hinsn : Iss.decode i = .regimm13 ∨ Iss.decode i = .unhandled) :
    PlainAgrees x (branch1 .ii i p) pc i s ↔ PlainOk (Iss.in64bMode s) i (regs s) := by
  have hii : retire x (branch1 .ii i p) pc (regs s) = (regs s, some 10) := retire_ii rfl
  rcases hinsn with hdec | hdec
  · have hnext : retired (Iss.immediate i .regimm13 s) = some (regs s, none) := next_retired h0
    rw [PlainAgrees, PlainOk, DividesByZero, hdec, effect_ungated hdec hgate, hii, hnext]
    exact iff_of_false (fun hall => absurd (hall.2 id) (by simp)) id
  · have hstop : retired (Iss.immediate i .unhandled s) = none := rfl
    rw [PlainAgrees, PlainOk, DividesByZero, hdec, effect_ungated hdec hgate, hstop]
    exact iff_of_false (fun hall => absurd hall.1 (by simp)) id

/-- The instructions of opcode 1. -/
theorem regimm_agrees (hop : i.opcode.toNat = 1) (hjump : isJump i = false)
    (h0 : s.gpr 0#5 = 0) :
    PlainAgrees x (decodeRegimm p i) pc i s ↔ PlainOk (Iss.in64bMode s) i (regs s) := by
  have hgate : Iss.is64bGated i = false := gate_opcode hop (by decide)
  unfold decodeRegimm
  split
  case h_1 hrt =>
    have hdec : Iss.decode i = .bltz := decode_regimm hop hrt rfl
    simp [isJump, hdec] at hjump
  case h_2 hrt =>
    have hdec : Iss.decode i = .bgez := decode_regimm hop hrt rfl
    simp [isJump, hdec] at hjump
  case h_3 hrt =>
    have hdec : Iss.decode i = .bltzl := decode_regimm hop hrt rfl
    simp [isJump, hdec] at hjump
  case h_4 hrt =>
    have hdec : Iss.decode i = .bgezl := decode_regimm hop hrt rfl
    simp [isJump, hdec] at hjump
  case h_5 hrt =>
    have hdec : Iss.decode i = .bltzal := decode_regimm hop hrt rfl
    simp [isJump, hdec] at hjump
  case h_6 hrt =>
    have hdec : Iss.decode i = .bgezal := decode_regimm hop hrt rfl
    simp [isJump, hdec] at hjump
  case h_7 hrt =>
    have hdec : Iss.decode i = .bltzall := decode_regimm hop hrt rfl
    simp [isJump, hdec] at hjump
  case h_8 hrt =>
    have hdec : Iss.decode i = .bgezall := decode_regimm hop hrt rfl
    simp [isJump, hdec] at hjump
  case h_9 hrt =>
    refine ordinary (decode_regimm hop hrt rfl) (fun _ _ => trivial) hgate ?_
    rw [retire_tgei i p]
    exact trapIf_retired h0 _
  case h_10 hrt =>
    refine ordinary (decode_regimm hop hrt rfl) (fun _ _ => trivial) hgate ?_
    rw [retire_tgeiu i p]
    exact trapIf_retired h0 _
  case h_11 hrt =>
    refine ordinary (decode_regimm hop hrt rfl) (fun _ _ => trivial) hgate ?_
    rw [retire_tlti i p]
    exact trapIf_retired h0 _
  case h_12 hrt =>
    refine ordinary (decode_regimm hop hrt rfl) (fun _ _ => trivial) hgate ?_
    rw [retire_tltiu i p]
    exact trapIf_retired h0 _
  case h_13 hrt =>
    refine ordinary (decode_regimm hop hrt rfl) (fun _ _ => trivial) hgate ?_
    rw [retire_teqi i p]
    exact trapIf_retired h0 _
  case h_14 hrt =>
    refine ordinary (decode_regimm hop hrt rfl) (fun _ _ => trivial) hgate ?_
    rw [retire_tnei i p]
    exact trapIf_retired h0 _
  case h_15 =>
    refine reserved_agrees hgate h0 ?_
    have hrt : Iss.decode i = Iss.decodeRegimm i.rt := by
      unfold Iss.decode
      rw [hop]
      rfl
    rw [hrt]
    unfold Iss.decodeRegimm
    split
    all_goals
      first
      | exact Or.inl rfl
      | exact Or.inr rfl
      | exact absurd ‹i.rt.toNat = _› ‹_›

/-- An instruction that is not a jump retires what the interpreter does of it,
unless it is one of the exceptions. -/
theorem plain_agrees_iff {u : Uop} (hdec : decode (in64bOps (s.cpr0 Cpr0.sr)) p i = some u)
    (hjump : isJump i = false) (h0 : s.gpr 0#5 = 0) :
    PlainAgrees x u pc i s ↔ PlainOk (Iss.in64bMode s) i (regs s) := by
  unfold decode at hdec
  split at hdec
  case h_1 hop =>
    split at hdec
    case isTrue => cases hdec
    case isFalse hsys =>
      cases hdec
      exact special_agrees hop (fun h => hsys (Or.inl h)) (fun h => hsys (Or.inr h)) hjump h0
  case h_2 hop =>
    cases hdec
    exact regimm_agrees hop hjump h0
  case h_3 hop =>
    have hinsn : Iss.decode i = .j := decode_opcode hop (by decide) rfl
    simp [isJump, hinsn] at hjump
  case h_4 hop =>
    have hinsn : Iss.decode i = .jal := decode_opcode hop (by decide) rfl
    simp [isJump, hinsn] at hjump
  case h_5 hop =>
    have hinsn : Iss.decode i = .beq := decode_opcode hop (by decide) rfl
    simp [isJump, hinsn] at hjump
  case h_6 hop =>
    have hinsn : Iss.decode i = .bne := decode_opcode hop (by decide) rfl
    simp [isJump, hinsn] at hjump
  case h_7 hop =>
    have hinsn : Iss.decode i = .blez := decode_opcode hop (by decide) rfl
    simp [isJump, hinsn] at hjump
  case h_8 hop =>
    have hinsn : Iss.decode i = .bgtz := decode_opcode hop (by decide) rfl
    simp [isJump, hinsn] at hjump
  case h_9 hop =>
    cases hdec
    refine ordinary (decode_opcode hop (by decide) rfl) (fun _ _ => trivial) (gate_opcode hop (by decide)) ?_
    rw [retire_addi i h0]
    exact checked_retired h0 _ _ _
  case h_10 hop =>
    cases hdec
    refine ordinary (decode_opcode hop (by decide) rfl) (fun _ _ => trivial) (gate_opcode hop (by decide)) ?_
    rw [retire_addiu i h0]
    exact write_retired h0 _ _
  case h_11 hop =>
    cases hdec
    refine ordinary (decode_opcode hop (by decide) rfl) (fun _ _ => trivial) (gate_opcode hop (by decide)) ?_
    rw [retire_slti i]
    exact write_retired h0 _ _
  case h_12 hop =>
    cases hdec
    refine ordinary (decode_opcode hop (by decide) rfl) (fun _ _ => trivial) (gate_opcode hop (by decide)) ?_
    rw [retire_sltiu i]
    exact write_retired h0 _ _
  case h_13 hop =>
    cases hdec
    refine ordinary (decode_opcode hop (by decide) rfl) (fun _ _ => trivial) (gate_opcode hop (by decide)) ?_
    rw [retire_andi i h0]
    exact write_retired h0 _ _
  case h_14 hop =>
    cases hdec
    refine ordinary (decode_opcode hop (by decide) rfl) (fun _ _ => trivial) (gate_opcode hop (by decide)) ?_
    rw [retire_ori i h0]
    exact write_retired h0 _ _
  case h_15 hop =>
    cases hdec
    refine ordinary (decode_opcode hop (by decide) rfl) (fun _ _ => trivial) (gate_opcode hop (by decide)) ?_
    rw [retire_xori i h0]
    exact write_retired h0 _ _
  case h_16 hop =>
    cases hdec
    refine ordinary (decode_opcode hop (by decide) rfl) (fun _ _ => trivial) (gate_opcode hop (by decide)) ?_
    rw [retire_lui i]
    exact write_retired h0 _ _
  case h_17 hop =>
    have hinsn : Iss.decode i = .beql := decode_opcode hop (by decide) rfl
    simp [isJump, hinsn] at hjump
  case h_18 hop =>
    have hinsn : Iss.decode i = .bnel := decode_opcode hop (by decide) rfl
    simp [isJump, hinsn] at hjump
  case h_19 hop =>
    have hinsn : Iss.decode i = .blezl := decode_opcode hop (by decide) rfl
    simp [isJump, hinsn] at hjump
  case h_20 hop =>
    have hinsn : Iss.decode i = .bgtzl := decode_opcode hop (by decide) rfl
    simp [isJump, hinsn] at hjump
  case h_21 hop =>
    cases hdec
    have h : retired (Iss.immediate i .daddi s) =
        some (retire x (immOp .daddi i .daddichk) pc (regs s)) := by
      rw [retire_daddi i]
      exact checked_retired h0 _ _ _
    have hinsn : Iss.decode i = .daddi := decode_opcode hop (by decide) rfl
    exact ordinary_gated hinsn (fun _ _ => trivial) (gate_wide hop (by decide))
      h0 (by rw [h]; rfl) fun _ => h
  case h_22 hop =>
    cases hdec
    have h : retired (Iss.immediate i .daddiu s) =
        some (retire x (immOp .daddiu i .nop) pc (regs s)) := by
      rw [retire_daddiu i]
      exact write_retired h0 _ _
    have hinsn : Iss.decode i = .daddiu := decode_opcode hop (by decide) rfl
    exact ordinary_gated hinsn (fun _ _ => trivial) (gate_wide hop (by decide))
      h0 (by rw [h]; rfl) fun _ => h
  case h_23 => cases hdec

end Others

end Exec

end R9999
