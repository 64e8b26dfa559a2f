import Mathlib.Data.List.Chain
import R9999.Core.Step

/-!
# Injected operations and delay slots

Decode puts a pending interrupt or external flush in the place of an instruction, except in
a delay slot.  Whether an instruction is in a delay slot is tracked by one bit, from the
branch bits that were predecoded when the cache line was filled.

The fetch queue is acknowledged in `ACTIVE` only.  In the other states decode pushes the
same instructions again and the bit goes wrong, until the queue is cleared.
-/

namespace R9999

namespace Core

/-! ## Predecode and decode -/

/-- `bswap32`. -/
def bswap32 (w : BitVec 32) : BitVec 32 :=
  w.extractLsb' 0 8 ++ w.extractLsb' 8 8 ++ w.extractLsb' 16 8 ++ w.extractLsb' 24 8

/-- The `n` bits of an instruction from bit `lo` on. -/
def field (insn : BitVec 32) (lo n : Nat) : Nat := (insn.extractLsb' lo n).toNat

theorem field_lt (insn : BitVec 32) (lo n : Nat) : field insn lo n < 2 ^ n := BitVec.isLt _

/-- The delay slot of an operation, and whether the operation is one that only raises an
exception (`II` or `CPU`). -/
structure SlotFields where
  hasDelaySlot : Bool
  hasNullifyingDelaySlot : Bool
  raises : Bool

namespace SlotFields

def none : SlotFields := ⟨false, false, false⟩

def regular : SlotFields := ⟨true, false, false⟩

def nullifying : SlotFields := ⟨true, true, false⟩

end SlotFields

/-- The arm of `predecode` for opcode 1, by `rt`. -/
def predecodeRegimm (rt : Nat) : BitVec 4 :=
  match rt with
  | 0 | 1 => 1
  | 2 | 3 => 2
  | 16 | 17 | 18 | 19 => 9
  | _ => 0

/-- `predecode`, of a word as the memory returns it. -/
def predecode (raw : BitVec 32) : BitVec 4 :=
  let insn := bswap32 raw
  match field insn 26 6 with
  | 0 =>
    match field insn 0 6 with
    | 8 => if field insn 21 5 = 31 then 7 else 4
    | 9 => 6
    | _ => 0
  | 1 => predecodeRegimm (field insn 16 5)
  | 2 => 3
  | 3 => 5
  | 4 => if field insn 21 5 = 0 ∧ field insn 16 5 = 0 then 8 else 1
  | 5 | 6 | 7 => 1
  | 17 =>
    if field insn 21 5 = 8 then
      match field insn 16 2 with
      | 0 | 1 => 1
      | _ => 2
    else 0
  | 20 | 21 | 22 | 23 => 2
  | _ => 0

/-- The arm of `decode_mips` for opcode 1, by `rt`: branches, traps, and the reserved
encodings, which keep the delay slot. -/
def decodeRegimm (rt : Nat) : SlotFields :=
  match rt with
  | 0 | 1 | 16 | 17 => .regular
  | 2 | 3 | 18 | 19 => .nullifying
  | 8 | 9 | 10 | 11 | 12 | 14 => .none
  | _ => ⟨true, false, true⟩

/-- The delay slot fields of `decode_mips`, of an instruction in the cache.  No other arm
sets them. -/
def decodeSlot (cu1 : Bool) (insn : BitVec 32) : SlotFields :=
  match field insn 26 6 with
  | 0 =>
    match field insn 0 6 with
    | 8 | 9 => .regular
    | _ => .none
  | 1 => decodeRegimm (field insn 16 5)
  | 2 | 3 | 4 | 5 | 6 | 7 => .regular
  | 17 =>
    if !cu1 then ⟨false, false, true⟩
    else if field insn 21 5 = 8 then
      match field insn 16 2 with
      | 0 | 1 => .regular
      | _ => .nullifying
    else .none
  | 20 | 21 | 22 | 23 => .nullifying
  | _ => .none

theorem regimm_agrees : ∀ rt < 2 ^ 5, (decodeRegimm rt).raises = false →
    (predecodeRegimm rt ≠ 0 ↔ (decodeRegimm rt).hasDelaySlot = true) := by
  decide

/-- The two decoders agree on the branches. -/
theorem predecode_agrees (cu1 : Bool) (raw : BitVec 32) :
    (decodeSlot cu1 (bswap32 raw)).raises = false →
      (predecode raw ≠ 0 ↔ (decodeSlot cu1 (bswap32 raw)).hasDelaySlot = true) := by
  unfold predecode decodeSlot
  dsimp only
  generalize bswap32 raw = insn
  split
  next =>
    split
    next => simp only [SlotFields.regular]; split <;> decide
    next => decide
    next => simp_all [SlotFields.none]
  next => exact regimm_agrees _ (field_lt insn 16 5)
  next => decide
  next => decide
  next =>
    simp only [SlotFields.regular]
    split <;> decide
  next => decide
  next => decide
  next => decide
  next =>
    cases cu1 with
    | false => simp
    | true =>
      simp only [Bool.not_true, Bool.false_eq_true, if_false]
      split
      next => split <;> simp_all [SlotFields.regular, SlotFields.nullifying]
      next => decide
  next => decide
  next => decide
  next => decide
  next => decide
  next => simp_all [SlotFields.none]

/-- A nullifying delay slot is a delay slot. -/
theorem decodeSlot_nullifying (cu1 : Bool) (insn : BitVec 32)
    (h : (decodeSlot cu1 insn).hasNullifyingDelaySlot = true) :
    (decodeSlot cu1 insn).hasDelaySlot = true := by
  revert h
  have hregimm : ∀ rt < 2 ^ 5, (decodeRegimm rt).hasNullifyingDelaySlot = true →
      (decodeRegimm rt).hasDelaySlot = true := by decide
  unfold decodeSlot
  split
  case h_1 => split <;> decide
  case h_2 => exact hregimm _ (field_lt insn 16 5)
  case h_9 =>
    cases cu1 with
    | false => simp
    | true =>
      simp only [Bool.not_true, Bool.false_eq_true, if_false]
      split
      next => split <;> decide
      next => decide
  all_goals decide

/-! ## The tracker -/

/-- The core with the instructions of the current stream, since the last clear of the decode
queue and newest first: those that were pushed, those of them that the fetch queue was told
to drop, and whether these are all. -/
structure DecState where
  core : State
  past : List Insn
  acked : List Insn
  clean : Bool

section Machine

variable (p : Params)

def decNext (s : DecState) (i : Input) : DecState :=
  let c := comb p s.core i
  let as := pushed p s.core i c
  let inActive := decide (s.core.regs.state = .active)
  { core := next p s.core i
    past := if c.clrRob || c.clrDq then [] else as.reverse ++ s.past
    acked :=
      if c.clrRob || c.clrDq then [] else (if inActive then as.reverse else []) ++ s.acked
    clean := (c.clrRob || c.clrDq) || (s.clean && (as.isEmpty || inActive)) }

def decReset : DecState := ⟨reset, [], [], true⟩

end Machine

/-- No branch follows a branch; the newest instruction comes first. -/
def NoBranchInSlot (past : List Insn) : Prop :=
  past.IsChain fun newer older => ¬ (older.isBranch = true ∧ newer.isBranch = true)

/-- None of the fetches faulted. -/
def Fetched (past : List Insn) : Prop := ∀ a ∈ past, a.fault = false

instance (past : List Insn) : Decidable (NoBranchInSlot past) :=
  inferInstanceAs (Decidable (List.IsChain _ past))

instance (past : List Insn) : Decidable (Fetched past) :=
  inferInstanceAs (Decidable (∀ a ∈ past, a.fault = false))

/-- The newest instruction is a branch. -/
def lastIsBranch (past : List Insn) : Bool := past.head?.any fun a => !a.fault && a.isBranch

/-- Decode put something else in the place of an instruction. -/
def Injected (u : Uop) : Prop := u.op = .irq ∨ u.op.isXflush = true

/-- What decode keeps of the delay slots. -/
structure DecOk (p : Params) (s : DecState) (i : Input) : Prop where
  tracked : s.clean = true → Fetched s.past → NoBranchInSlot s.acked →
    s.core.decDelaySlot = lastIsBranch s.past
  /-- The instruction before one that is replaced is no branch. -/
  spared : s.clean = true → s.core.regs.state = .active →
    Fetched ((pushed p s.core i (comb p s.core i)).reverse ++ s.past) →
    NoBranchInSlot ((pushed p s.core i (comb p s.core i)).reverse ++ s.acked) →
    ∀ k u, (decoded s.core i (pushed p s.core i (comb p s.core i)))[k]? = some u → Injected u →
      lastIsBranch (((pushed p s.core i (comb p s.core i)).take k).reverse ++ s.past) = false

/-- At most two instructions are pushed. -/
theorem pushed_cases (p : Params) (s : State) (i : Input) (c : Comb) :
    pushed p s i c = [] ∨ (∃ a, pushed p s i c = [a]) ∨ ∃ a b, pushed p s i c = [a, b] := by
  unfold pushed
  split
  · exact .inl rfl
  · split
    · exact .inl rfl
    · exact .inr (.inl ⟨_, rfl⟩)
    · split
      · exact .inr (.inr ⟨_, _, rfl⟩)
      · exact .inr (.inl ⟨_, rfl⟩)

structure DecInv (s : DecState) : Prop where
  same : s.clean = true → s.acked = s.past
  tracked : s.clean = true → Fetched s.past → NoBranchInSlot s.past →
    s.core.decDelaySlot = lastIsBranch s.past

theorem decInv_reset : DecInv decReset := ⟨fun _ => rfl, fun _ _ _ => rfl⟩

section Step

variable {p : Params} {s : DecState} {i : Input}

theorem lastIsBranch_cons {a : Insn} {past : List Insn} (h : a.fault = false) :
    lastIsBranch (a :: past) = a.isBranch := by
  simp [lastIsBranch, h]

/-- The slot of a branch is no branch. -/
theorem NoBranchInSlot.head {a : Insn} {past : List Insn} (h : NoBranchInSlot (a :: past))
    (hlast : lastIsBranch past = true) : a.isBranch = false := by
  cases past with
  | nil => cases hlast
  | cons b bs =>
    simp only [lastIsBranch, List.head?_cons, Option.any_some, Bool.and_eq_true] at hlast
    have hr := (List.isChain_cons_cons.mp h).1
    simpa [hlast.2] using hr

theorem NoBranchInSlot.older {as past : List Insn} (h : NoBranchInSlot (as ++ past)) :
    NoBranchInSlot past := List.IsChain.right_of_append h

/-- One instruction moves the tracker to its own branch bit. -/
theorem track_one {d : Bool} {a : Insn} {past : List Insn} (hn : NoBranchInSlot (a :: past))
    (hd : d = lastIsBranch past) : (if d then false else a.isBranch) = a.isBranch := by
  cases d with
  | false => rfl
  | true => exact (hn.head hd.symm).symm

/-- The tracker after the pushes of a cycle. -/
theorem trackSlot_eq {st : State} {as past : List Insn} (hlen : as.length ≤ 2)
    (hf : Fetched (as.reverse ++ past)) (hn : NoBranchInSlot (as.reverse ++ past))
    (hd : st.decDelaySlot = lastIsBranch past) :
    trackSlot st as = lastIsBranch (as.reverse ++ past) := by
  match as with
  | [] => exact hd
  | [a] =>
    rw [List.reverse_singleton, List.singleton_append] at hf hn ⊢
    rw [lastIsBranch_cons (hf a (by simp))]
    exact track_one hn hd
  | [a, b] =>
    have hab : [a, b].reverse ++ past = b :: a :: past := rfl
    rw [hab] at hf hn ⊢
    obtain ⟨hb, hn'⟩ := List.isChain_cons_cons.mp hn
    rw [lastIsBranch_cons (hf b (by simp))]
    change (if st.decDelaySlot then b.isBranch else !a.isBranch && b.isBranch) = b.isBranch
    cases hst : st.decDelaySlot with
    | true => rfl
    | false =>
      cases ha : a.isBranch with
      | false => simp
      | true => simpa [ha] using hb
  | _ :: _ :: _ :: _ => simp at hlen

theorem pushed_length : (pushed p s.core i (comb p s.core i)).length ≤ 2 := by
  obtain h | ⟨a, h⟩ | ⟨a, b, h⟩ := pushed_cases p s.core i (comb p s.core i) <;> simp [h]

/-- What the invariant needs of the state before a cycle that leaves the history clean. -/
theorem clean_of_next (hclr : ((comb p s.core i).clrRob || (comb p s.core i).clrDq) = false)
    (hc : (decNext p s i).clean = true) :
    s.clean = true ∧ (pushed p s.core i (comb p s.core i) = [] ∨
      s.core.regs.state = .active) := by
  simpa [decNext, hclr] using hc

theorem tracked_next (h : DecInv s) (hc : (decNext p s i).clean = true)
    (hf : Fetched (decNext p s i).past) (hn : NoBranchInSlot (decNext p s i).past) :
    (decNext p s i).core.decDelaySlot = lastIsBranch (decNext p s i).past := by
  cases hclr : (comb p s.core i).clrRob || (comb p s.core i).clrDq with
  | true => simp [decNext, next, hclr, lastIsBranch]
  | false =>
    obtain ⟨hc', -⟩ := clean_of_next hclr hc
    simp only [decNext, hclr, if_neg Bool.false_ne_true] at hf hn ⊢
    have hold : s.core.decDelaySlot = lastIsBranch s.past :=
      h.tracked hc' (fun a ha => hf a (List.mem_append_right _ ha)) hn.older
    simpa [next, hclr] using trackSlot_eq pushed_length hf hn hold

theorem decInv_next (h : DecInv s) : DecInv (decNext p s i) where
  same := by
    intro hc
    cases hclr : (comb p s.core i).clrRob || (comb p s.core i).clrDq with
    | true => simp [decNext, hclr]
    | false =>
      obtain ⟨hc', has⟩ := clean_of_next hclr hc
      simp only [decNext, hclr, if_neg Bool.false_ne_true, h.same hc']
      obtain has | has := has
      · simp [has]
      · simp [has]
  tracked := tracked_next h

/-- An instruction is replaced only outside a delay slot. -/
theorem decode_injected {st : State} {inSlot : Bool} {a : Insn}
    (h : Injected (decode st i inSlot a)) : inSlot = false := by
  cases inSlot with
  | false => rfl
  | true =>
    simp only [decode, Bool.not_true, Bool.and_false, Bool.false_eq_true, if_false] at h
    obtain h | h := h
    · exact (a.own.1 h).elim
    · simp [a.own.2] at h

theorem decOk_of (h : DecInv s) : DecOk p s i where
  tracked := by
    intro hc hf hn
    exact h.tracked hc hf (h.same hc ▸ hn)
  spared := by
    intro hc hs hf hn k u hu hinj
    rw [h.same hc] at hn
    have hold : s.core.decDelaySlot = lastIsBranch s.past :=
      h.tracked hc (fun a ha => hf a (List.mem_append_right _ ha)) hn.older
    obtain has | ⟨a, has⟩ | ⟨a, b, has⟩ := pushed_cases p s.core i (comb p s.core i)
    · simp [has, decoded] at hu
    · rw [has] at hu ⊢
      obtain ⟨rfl, rfl⟩ : k = 0 ∧ decode s.core i s.core.decDelaySlot a = u := by
        cases k with
        | zero => simpa [decoded] using hu
        | succ k => simp [decoded] at hu
      simpa [hold] using decode_injected hinj
    · rw [has] at hf hn hu ⊢
      have hab : [a, b].reverse ++ s.past = b :: a :: s.past := rfl
      rw [hab] at hf hn
      match k with
      | 0 =>
        obtain rfl : decode s.core i s.core.decDelaySlot a = u := by simpa [decoded] using hu
        simpa [hold] using decode_injected hinj
      | 1 =>
        obtain rfl : decode s.core i (!s.core.decDelaySlot && a.isBranch) b = u := by
          simpa [decoded] using hu
        have hslot := decode_injected hinj
        change lastIsBranch (a :: s.past) = false
        rw [lastIsBranch_cons (hf a (by simp))]
        cases hd : s.core.decDelaySlot with
        | false => simpa [hd] using hslot
        | true =>
          -- the first of the two is itself the slot of an earlier branch
          exact NoBranchInSlot.head (List.isChain_cons_cons.mp hn).2 (hold.symm.trans hd)
      | k + 2 => simp [decoded] at hu

end Step

/-- In every state of every run, and for every word: as long as all the pushes since the
last clear were acknowledged, decode knows the delay slots and replaces none of them; and
predecode and decode agree on the branches. -/
theorem injection_spares_slots (p : Params) (is : List Input) (i : Input) :
    DecOk p (Hw.run (decNext p) decReset is) i ∧
      ∀ (cu1 : Bool) (raw : BitVec 32), (decodeSlot cu1 (bswap32 raw)).raises = false →
        (predecode raw ≠ 0 ↔ (decodeSlot cu1 (bswap32 raw)).hasDelaySlot = true ∨
          (decodeSlot cu1 (bswap32 raw)).hasNullifyingDelaySlot = true) := by
  refine ⟨decOk_of (Hw.run_invariant (fun _ _ => decInv_next) decInv_reset is), ?_⟩
  intro cu1 raw hr
  rw [predecode_agrees cu1 raw hr]
  exact ⟨.inl, fun h => h.elim id (decodeSlot_nullifying cu1 _)⟩

/-- A `CTC1`, and a branch that decode sees twice while the `CTC1` is allocated alone. -/
def pushedTwice : List Input :=
  boot ++
    [{ quiet with insn := some ⟨.serial .ctc1 Op.ctc1_serializes false false 0x1000, false, false, by decide⟩ },
     quiet,
     { quiet with insn := some ⟨.branch false 0x1004, true, false, by decide⟩ },
     { quiet with insn := some ⟨.branch false 0x1004, true, false, by decide⟩ }]

/-- The last instruction pushed is the branch and the tracker says that it is not. -/
theorem tracker_wrong_unacknowledged : ¬ ∀ (p : Params) (is : List Input),
    Fetched (Hw.run (decNext p) decReset is).past →
      NoBranchInSlot (Hw.run (decNext p) decReset is).acked →
        (Hw.run (decNext p) decReset is).core.decDelaySlot =
          lastIsBranch (Hw.run (decNext p) decReset is).past := by
  intro h
  have hd := h machine pushedTwice (by decide +kernel) (by decide +kernel)
  revert hd
  decide +kernel

end Core

end R9999
