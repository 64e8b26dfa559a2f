import Mathlib.Tactic.SplitIfs
import R9999.Iss.Exec

/-!
# The delay-slot law

A jump or a branch writes its return address, runs its slot unless it nullifies it, and
then goes where it goes; an exception of the slot takes precedence.  The interpreter tells
an exception of the slot by Status.EXL going from clear to set, and two of its branches
write the return address after the slot, so it keeps the law only for the slots that this
module determines.
-/

namespace R9999

namespace Iss

variable {fpu : Fpu} {run : State → Option (Bool × State)} {j : Jump} {s : State}

/-- The state in which the slot of a jump at `s` runs. -/
def slotEntry (s : State) : State := { s.setPc (s.pc + 4) with inDelaySlot := true }

/-- The return from the slot. -/
def slotExit (s s₁ : State) : State := { s₁ with inDelaySlot := s.inDelaySlot }

/-- The law of the delay slot.  The return address is there before the slot, the slot runs
once or, nullified, not at all, and what it writes does not change where the jump goes. -/
def slotLaw (run : State → Option (Bool × State)) (j : Jump) (s : State) :
    Option (Bool × State) :=
  let linked := j.writeLink s.pc s
  if j.nullifies then some (false, linked.setPc (s.pc + 8))
  else
    (run (slotEntry linked)).map fun r =>
      let s₁ := slotExit s r.2
      (r.1, if r.1 then s₁ else s₁.setPc (if j.taken then j.target else s.pc + 8))

/-- The write of the return address before the slot. -/
def Jump.linkBefore (j : Jump) (s : State) : State :=
  if j.linkLate then s else j.writeLink s.pc s

/-- The write of the return address, of an instruction at `pc`, after the slot. -/
def Jump.linkAfter (j : Jump) (pc : BitVec 64) (s : State) : State :=
  if j.linkLate then j.writeLink pc s else s

/-- What the source takes for an exception of the slot. -/
def exlRises (s s₁ : State) : Bool := !s.srHas srExl && s₁.srHas srExl

/-- What the slot leaves, but for the pc. -/
def slotRest (s s₁ : State) : State := (slotExit s s₁).setPc 0

/-- Where the slot leaves the pc, `r` being its run in the code and `r'` by the law.  When
the jump is taken, an exception has to be seen as a rise of Status.EXL, and what is not one
must not be; when it is not, a slot without an exception has to leave the pc at the next
instruction.  Else the two have to come to the same place by chance. -/
def Jump.Settles (j : Jump) (s : State) (r r' : Bool × State) : Prop :=
  if j.taken then
    if r'.1 then (if exlRises s r.2 then r.2.pc = r'.2.pc else r'.2.pc = j.target)
    else (exlRises s r.2 → r.2.pc = j.target)
  else r.2.pc = if r'.1 then r'.2.pc else s.pc + 8

/-- The slots with which a jump keeps the law.  Where the return address is written late,
the slot has to do the same whether it is there before the slot or written after. -/
def Jump.SlotOk (run : State → Option (Bool × State)) (j : Jump) (s : State) : Prop :=
  j.nullifies ∨
    (((run (slotEntry (j.linkBefore s))).map
        fun r => (r.1, j.linkAfter s.pc (slotRest s r.2))) =
      (run (slotEntry (j.writeLink s.pc s))).map fun r => (r.1, slotRest s r.2)) ∧
    ∀ r r', run (slotEntry (j.linkBefore s)) = some r →
      run (slotEntry (j.writeLink s.pc s)) = some r' → j.Settles s r r'

@[simp] theorem setPc_setPc (s : State) (v w : BitVec 64) : (s.setPc v).setPc w = s.setPc w :=
  rfl

@[simp] theorem setPc_pc (s : State) (v : BitVec 64) : (s.setPc v).pc = v := rfl

/-- Two states are the same if they are but for the pc, and their pcs are. -/
theorem eq_of_setPc {s t : State} (hrest : s.setPc 0 = t.setPc 0) (hpc : s.pc = t.pc) :
    s = t :=
  calc s = (s.setPc 0).setPc s.pc := rfl
    _ = (t.setPc 0).setPc t.pc := by rw [hrest, hpc]
    _ = t := rfl

section Link

variable (j : Jump) (pc v : BitVec 64) (s s₁ : State)

theorem writeLink_pc : (j.writeLink pc s).pc = s.pc := by
  unfold Jump.writeLink
  cases j.link <;> rfl

theorem linkAfter_pc : (j.linkAfter pc s).pc = s.pc := by
  unfold Jump.linkAfter
  split
  · exact writeLink_pc j pc s
  · rfl

theorem linkAfter_setPc : (j.linkAfter pc s).setPc v = j.linkAfter pc (s.setPc v) := by
  unfold Jump.linkAfter Jump.writeLink
  cases j.linkLate
  · rfl
  · cases j.link <;> rfl

theorem linkBefore_pc : (j.linkBefore s).pc = s.pc := by
  unfold Jump.linkBefore
  split
  · rfl
  · exact writeLink_pc j s.pc s

theorem linkBefore_srHas (bit : BitVec 32) : (j.linkBefore s).srHas bit = s.srHas bit := by
  unfold Jump.linkBefore Jump.writeLink
  cases j.linkLate
  · cases j.link <;> rfl
  · rfl

theorem linkBefore_inDelaySlot : (j.linkBefore s).inDelaySlot = s.inDelaySlot := by
  unfold Jump.linkBefore Jump.writeLink
  cases j.linkLate
  · cases j.link <;> rfl
  · rfl

end Link

/-- The code, in the words of the law. -/
theorem runJump_eq (run : State → Option (Bool × State)) (j : Jump) (s : State) :
    runJump run j s =
      if j.nullifies then some (false, (j.linkBefore s).setPc (s.pc + 8))
      else
        (run (slotEntry (j.linkBefore s))).map fun r =>
          let s₁ := j.linkAfter s.pc (slotExit s r.2)
          (r.1, if j.taken && !exlRises s r.2 then s₁.setPc j.target else s₁) := by
  have hpc : s.pc + 4 + 4 = s.pc + 8 := BitVec.add_assoc s.pc 4 4
  have hentry : { (j.linkBefore s).setPc (s.pc + 4) with inDelaySlot := true } =
      slotEntry (j.linkBefore s) := by
    rw [slotEntry, linkBefore_pc]
  show (if j.nullifies then some (false, (j.linkBefore s).setPc (s.pc + 4 + 4)) else _) = _
  rw [hpc]
  congr 1
  show ((run { (j.linkBefore s).setPc (s.pc + 4) with inDelaySlot := true }).map _).map _ = _
  rw [hentry, Option.map_map]
  congr 1
  funext r
  -- what `run_delay_slot` saves is what it finds after the write of the return address
  have hsaved (before : State) (hexl : before.srHas srExl = s.srHas srExl)
      (hslot : before.inDelaySlot = s.inDelaySlot) :
      (!before.srHas srExl && r.2.srHas srExl, { r.2 with inDelaySlot := before.inDelaySlot }) =
        (exlRises s r.2, slotExit s r.2) := by
    rw [hexl, hslot]
    rfl
  have hr := hsaved ((j.linkBefore s).setPc (s.pc + 4)) (linkBefore_srHas j s srExl)
    (linkBefore_inDelaySlot j s)
  exact congrArg (fun x : Bool × State =>
    (r.1, if j.taken && !x.1 then (j.linkAfter s.pc x.2).setPc j.target
      else j.linkAfter s.pc x.2)) hr

theorem linkBefore_of_nullifies (hnull : j.nullifies = true) (s : State) :
    j.linkBefore s = j.writeLink s.pc s := by
  have hlikely : j.likely = true := by
    simp only [Jump.nullifies, Bool.and_eq_true] at hnull
    exact hnull.1
  have hlate : j.linkLate = false := by
    cases hlate : j.linkLate with
    | false => rfl
    | true => exact absurd (j.late_regular hlate) (by simp [hlikely])
  simp [Jump.linkBefore, hlate]

/-- The pc at the end, in the code. -/
theorem codePc_eq (j : Jump) (s : State) (r : Bool × State) :
    (if j.taken && !exlRises s r.2 then (j.linkAfter s.pc (slotExit s r.2)).setPc j.target
      else j.linkAfter s.pc (slotExit s r.2)).pc =
      if j.taken && !exlRises s r.2 then j.target else r.2.pc := by
  split
  · rfl
  · exact linkAfter_pc j s.pc _

/-- What is left at the end, but for the pc, in the code. -/
theorem codeRest_eq (j : Jump) (s : State) (r : Bool × State) :
    (if j.taken && !exlRises s r.2 then (j.linkAfter s.pc (slotExit s r.2)).setPc j.target
      else j.linkAfter s.pc (slotExit s r.2)).setPc 0 = j.linkAfter s.pc (slotRest s r.2) := by
  split
  · exact linkAfter_setPc j s.pc 0 (slotExit s r.2)
  · exact linkAfter_setPc j s.pc 0 (slotExit s r.2)

/-- The pcs of the code and of the law are the same when the slot settles. -/
theorem settles_iff (j : Jump) (s : State) (r r' : Bool × State) :
    (if j.taken && !exlRises s r.2 then j.target else r.2.pc) =
        (if r'.1 then r'.2.pc else if j.taken then j.target else s.pc + 8) ↔
      j.Settles s r r' := by
  unfold Jump.Settles
  cases j.taken with
  | false => simp
  | true =>
    cases r'.1 with
    | false => cases exlRises s r.2 <;> simp
    | true => cases exlRises s r.2 <;> simp [eq_comm]

/-- A jump keeps the law for the slots that are right for it, and for no others. -/
theorem runJump_eq_slotLaw_iff (run : State → Option (Bool × State)) (j : Jump) (s : State) :
    runJump run j s = slotLaw run j s ↔ j.SlotOk run s := by
  rw [runJump_eq, slotLaw, Jump.SlotOk]
  dsimp only
  by_cases hnull : j.nullifies = true
  · rw [if_pos hnull, if_pos hnull, linkBefore_of_nullifies hnull]
    exact iff_of_true rfl (Or.inl hnull)
  rw [if_neg hnull, if_neg hnull]
  cases hcode : run (slotEntry (j.linkBefore s)) with
  | none =>
    cases hlaw : run (slotEntry (j.writeLink s.pc s)) with
    | none => simp [hnull]
    | some r' => simp [hnull]
  | some r =>
    cases hlaw : run (slotEntry (j.writeLink s.pc s)) with
    | none => simp [hnull]
    | some r' =>
      have hlawPc : (if r'.1 then slotExit s r'.2
          else (slotExit s r'.2).setPc (if j.taken then j.target else s.pc + 8)).pc =
          if r'.1 then r'.2.pc else if j.taken then j.target else s.pc + 8 := by
        split <;> rfl
      have hlawRest : (if r'.1 then slotExit s r'.2
          else (slotExit s r'.2).setPc (if j.taken then j.target else s.pc + 8)).setPc 0 =
          slotRest s r'.2 := by
        split <;> rfl
      have hsettles := settles_iff j s r r'
      simp only [Option.map_some, Option.some.injEq, Prod.mk.injEq, hnull, false_or,
        Bool.false_eq_true]
      constructor
      · rintro ⟨hraised, hstate⟩
        refine ⟨⟨hraised, ?_⟩, ?_⟩
        · rw [← codeRest_eq, hstate, hlawRest]
        · rintro _ _ rfl rfl
          rw [← hsettles, ← codePc_eq, hstate, hlawPc]
      · rintro ⟨⟨hraised, hrest⟩, hset⟩
        refine ⟨hraised, eq_of_setPc ?_ ?_⟩
        · rw [codeRest_eq, hrest, hlawRest]
        · rw [codePc_eq, hlawPc, hsettles]
          exact hset r r' rfl rfl

/-- The jump or branch that an instruction is executed as, with the state it starts from,
if its fetch raises nothing and it may be executed. -/
def jumpAt (s : State) : Option (Jump × State) :=
  let f := fetch s
  let i : Word := Memory.read f.2.mem f.1 4
  if f.2.tlbFault = true ∨ (is64bGated i ∧ in64bMode f.2 = false) ∨
      (needsCoproc1 i ∧ f.2.srHas srCu1 = false) then none
  else (jumpOf i (decode i) (breakLink i f.2)).map (·, breakLink i f.2)

/-- `execMips` on a jump or a branch. -/
theorem execMips_jump {n : Nat} {s₁ : State} (hjump : jumpAt s = some (j, s₁)) :
    execMips fpu (n + 1) s = runJump (execMips fpu n) j s₁ := by
  unfold jumpAt at hjump
  dsimp only at hjump
  split at hjump
  · cases hjump
  · rename_i hgate
    obtain ⟨hfetch, h64, hcu⟩ :
        (fetch s).2.tlbFault ≠ true ∧
          ¬ (is64bGated (Memory.read (fetch s).2.mem (fetch s).1 4) ∧
            in64bMode (fetch s).2 = false) ∧
          ¬ (needsCoproc1 (Memory.read (fetch s).2.mem (fetch s).1 4) ∧
            (fetch s).2.srHas srCu1 = false) := by
      simpa only [not_or] using hgate
    obtain ⟨j', hj, hpair⟩ := Option.map_eq_some_iff.mp hjump
    cases hpair
    rw [execMips]
    rw [if_neg hfetch, execute, if_neg h64, if_neg hcu]
    dsimp only
    rw [hj]

/-- A memory that holds a program. -/
def codeAt (base : BitVec 32) (ws : List Word) : Memory := fun a =>
  let k := (a - base).toNat
  (ws.getD (k / 4) 0).extractLsb' (8 * (3 - k % 4)) 8

/-- A program in kseg0 at 0x80000400, with a given Status, whose register 1 holds
0x80001000. -/
def programState (sr : BitVec 32) (ws : List Word) : State where
  pc := 0xffffffff80000400
  gpr r := if r = 1 then 0xffffffff80001000 else 0
  lo := 0
  hi := 0
  cpr0 r := if r = Cpr0.sr then sr else 0
  cpr0_64 _ := 0
  cpr1 _ := 0
  fcsr := 0
  fccr := 0
  fexr := 0
  fenr := 0
  mem := codeAt 0x400 ws
  tlb _ := {}
  llLinkValid := false
  llLinkAddr := 0
  inDelaySlot := false
  tlbFault := false
  brk := false
  tlbExt := false
  osMode := true
  lastLdVa := 0

/-- An arithmetic that is not used. -/
def noFpu : Fpu := ⟨fun _ _ _ => 0, fun _ _ => false⟩

/-- `jr $1` with `teq $0, $0` in its slot, and Status.EXL set: the trap is lost. -/
def faultingSlot : State := programState srExl [0x00200008, 0x00000034]

/-- The jump of a program that starts with `jr $1`. -/
def jrJump : Jump :=
  { target := 0xffffffff80001000, taken := true, late_regular := Jump.regular_early }

theorem faultingSlot_jump : jumpAt faultingSlot = some (jrJump, (fetch faultingSlot).2) := by
  rfl

end Iss

end R9999
