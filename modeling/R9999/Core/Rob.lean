import R9999.Core.Window
import R9999.Hw.Ring
import R9999.Hw.Run

/-!
# The banks of the reorder buffer

The control machine takes the reorder buffer for a list, oldest entry first.  The source keeps
it in a ring: four pointers of an index and a wrap bit, and two banks by the low bit of the
index, so that the two entries of a dual allocation are written to different banks.  The size of
the ring is even and need not be a power of two.

`BankedCore` is the core with its reorder buffer in the banks, and `view` reads the list off the
pointers.  `rob_refines` says that the two cores go through the same states, that the tests of
the pointers are those of the list, and that the banks never write over a live entry.  What it
asks of the execution units is that no completion names a slot that is allocated in the same
cycle.
-/

namespace R9999

namespace Core

open Hw (ringPtr ringIdx)

/-! ## The storage -/

/-- The fields that are written at allocation only (`mrob_entry_t`). -/
structure MrobEntry where
  uop : Uop
  inDelaySlot : Bool
  tag : Tag

/-- The fields that completions write (`crob_entry_t`, `r_fp_flags`, `r_addrs`), and what the
int pipe has of the entry. -/
structure CrobEntry where
  issued : Bool
  srcA : BitVec 64
  faulted : Bool
  isIi : Bool
  isFpe : Bool
  fpSetFlags : Bool
  fpFlags : BitVec 6
  overflow : Bool
  trap : Bool
  isBadAddr : Bool
  isBusErr : Bool
  tlbRefill : Bool
  tlbInvalid : Bool
  tlbModified : Bool
  takeBr : Bool
  targetPc : BitVec 64
  data : BitVec 64
  addr : BitVec 64
  tlbHit : Bool
  tlbIndex : BitVec 6

/-- `rob_to_mrob`. -/
def robToMrob (e : Entry) : MrobEntry := ⟨e.uop, e.inDelaySlot, e.tag⟩

/-- `rob_to_crob`. -/
def robToCrob (e : Entry) : CrobEntry where
  issued := e.issued
  srcA := e.srcA
  faulted := e.faulted
  isIi := e.isIi
  isFpe := e.isFpe
  fpSetFlags := e.fpSetFlags
  fpFlags := e.fpFlags
  overflow := e.overflow
  trap := e.trap
  isBadAddr := e.isBadAddr
  isBusErr := e.isBusErr
  tlbRefill := e.tlbRefill
  tlbInvalid := e.tlbInvalid
  tlbModified := e.tlbModified
  takeBr := e.takeBr
  targetPc := e.targetPc
  data := e.data
  addr := e.addr
  tlbHit := e.tlbHit
  tlbIndex := e.tlbIndex

/-- `rob_merge`, with the completion bits. -/
def robMerge (m : MrobEntry) (c : CrobEntry) (complete sdComplete : Bool) : Entry where
  uop := m.uop
  inDelaySlot := m.inDelaySlot
  tag := m.tag
  issued := c.issued
  srcA := c.srcA
  complete := complete
  sdComplete := sdComplete
  faulted := c.faulted
  isIi := c.isIi
  isFpe := c.isFpe
  fpSetFlags := c.fpSetFlags
  fpFlags := c.fpFlags
  overflow := c.overflow
  trap := c.trap
  isBadAddr := c.isBadAddr
  isBusErr := c.isBusErr
  tlbRefill := c.tlbRefill
  tlbInvalid := c.tlbInvalid
  tlbModified := c.tlbModified
  takeBr := c.takeBr
  targetPc := c.targetPc
  data := c.data
  addr := c.addr
  tlbHit := c.tlbHit
  tlbIndex := c.tlbIndex

theorem robMerge_self (e : Entry) :
    robMerge (robToMrob e) (robToCrob e) e.complete e.sdComplete = e := rfl

/-- `LG_ROB_ENTRIES` and `ROB_ENTRIES`, as the source checks them. -/
structure RobSize where
  lg : ℕ
  entries : ℕ
  even : entries % 2 = 0
  le : entries ≤ 2 ^ lg
  gt : 2 ^ lg / 2 < entries

/-- The registers of the reorder buffer.  The banks are addressed by the upper bits of an index,
the completion bits by the whole of it. -/
structure Rob (lg : ℕ) where
  headPtr : BitVec (lg + 1)
  nextHeadPtr : BitVec (lg + 1)
  tailPtr : BitVec (lg + 1)
  nextTailPtr : BitVec (lg + 1)
  mrobEven : ℕ → MrobEntry
  mrobOdd : ℕ → MrobEntry
  robEven : ℕ → CrobEntry
  robOdd : ℕ → CrobEntry
  complete : ℕ → Bool
  sdComplete : ℕ → Bool

section Pointers

variable {lg : ℕ}

/-- `rob_ptr_inc_pow2`. -/
def robPtrIncPow2 (p : BitVec (lg + 1)) (k : ℕ) : BitVec (lg + 1) := p + BitVec.ofNat (lg + 1) k

/-- `rob_ptr_inc_npow2`. -/
def robPtrIncNpow2 (entries : ℕ) (p : BitVec (lg + 1)) (k : ℕ) : BitVec (lg + 1) :=
  let idx := (p.setWidth lg).setWidth (lg + 1) + BitVec.ofNat (lg + 1) k
  let wrap := decide (entries ≤ idx.toNat)
  let idx := if wrap then idx - BitVec.ofNat (lg + 1) entries else idx
  BitVec.cons (p.msb ^^ wrap) (idx.setWidth lg)

end Pointers

/-- `rob_ptr_inc`. -/
def robPtrInc (z : RobSize) (p : BitVec (z.lg + 1)) (k : ℕ) : BitVec (z.lg + 1) :=
  if z.entries = 2 ^ z.lg then robPtrIncPow2 p k else robPtrIncNpow2 z.entries p k

namespace Rob

variable {lg : ℕ} (b : Rob lg)

/-- The entry in a slot of the ring. -/
def entry (q : ℕ) : Entry :=
  if q % 2 = 1 then
    robMerge (b.mrobOdd (q / 2)) (b.robOdd (q / 2)) (b.complete q) (b.sdComplete q)
  else robMerge (b.mrobEven (q / 2)) (b.robEven (q / 2)) (b.complete q) (b.sdComplete q)

/-- `t_rob_head` and `t_rob_next_head`, with their completion bits. -/
def read (p : BitVec (lg + 1)) : Entry :=
  if p.getLsbD 0 then
    robMerge (b.mrobOdd (ringIdx p / 2)) (b.robOdd (ringIdx p / 2)) (b.complete (ringIdx p))
      (b.sdComplete (ringIdx p))
  else
    robMerge (b.mrobEven (ringIdx p / 2)) (b.robEven (ringIdx p / 2)) (b.complete (ringIdx p))
      (b.sdComplete (ringIdx p))

def robHead : Entry := b.read b.headPtr

def robNextHead : Entry := b.read b.nextHeadPtr

/-- `t_rob_empty`. -/
def robEmpty : Bool := decide (b.headPtr = b.tailPtr)

/-- `t_rob_next_empty`. -/
def robNextEmpty : Bool := decide (b.nextHeadPtr = b.tailPtr)

/-- `t_rob_full`. -/
def robFull : Bool := decide (ringIdx b.headPtr = ringIdx b.tailPtr ∧ b.headPtr ≠ b.tailPtr)

/-- `t_rob_next_full`. -/
def robNextFull : Bool :=
  decide (ringIdx b.headPtr = ringIdx b.nextTailPtr ∧ b.headPtr ≠ b.nextTailPtr)

end Rob

/-! ## A cycle -/

/-- `t_rob_tail`. -/
def robTail (s : State) (i : Input) : Option Entry :=
  match s.dq with
  | [] => none
  | u :: _ => some (Entry.alloc u s.regs.inDelaySlot i.tag)

/-- `t_rob_next_tail`. -/
def robNextTail (s : State) (i : Input) : Option Entry :=
  match s.dq with
  | u :: v :: _ => some (Entry.alloc v u.hasDelaySlot i.tagTwo)
  | _ => none

/-- A completion, or the issue to the int pipe, names the entry `k` places from the head. -/
def Input.names (i : Input) (k : ℕ) : Bool :=
  decide (i.start = some k) || decide (i.intDone.map Prod.fst = some k) ||
    decide (i.fpDone.map Prod.fst = some k) || decide (i.memDone.map Prod.fst = some k) ||
    decide (i.sdDone = some k)

theorem Entry.next_of_unnamed {s : State} {i : Input} {k : ℕ} (h : i.names k = false) (e : Entry) :
    e.next s i k = e := by
  simp only [Input.names, Bool.or_eq_false_iff, decide_eq_false_iff_not] at h
  obtain ⟨⟨⟨⟨h1, h2⟩, h3⟩, h4⟩, h5⟩ := h
  have skip {ρ : Type} (f : ρ → Entry → Entry) (o : Option (ℕ × ρ)) (ho : o.map Prod.fst ≠ some k)
      (e : Entry) : applyAt f k o e = e := by
    rcases o with _ | ⟨j, r⟩
    · rfl
    · exact if_neg fun hj => ho (by rw [hj]; rfl)
  simp only [Entry.next, skip _ _ h2, skip _ _ h3, skip _ _ h4, if_neg h5]
  exact if_neg fun hs => h1 hs.1

namespace Rob

section Cycle

variable (z : RobSize) (s : State) (i : Input) (c : Comb) (b : Rob z.lg)

/-- The one write port of a bank of `r_mrob_even` or `r_mrob_odd`: `t_mrob_odd_we`,
`t_mrob_odd_addr` and `t_mrob_odd_data`, and those of the even bank. -/
def mrobWrite (odd : Bool) : Option (ℕ × MrobEntry) :=
  if c.clrRob then none
  else if c.allocTwo && b.nextTailPtr.getLsbD 0 == odd then
    (robNextTail s i).map fun e => (ringIdx b.nextTailPtr / 2, robToMrob e)
  else if c.alloc && b.tailPtr.getLsbD 0 == odd then
    (robTail s i).map fun e => (ringIdx b.tailPtr / 2, robToMrob e)
  else none

/-- A bank after the write of its port. -/
def written (w : Option (ℕ × MrobEntry)) (bank : ℕ → MrobEntry) : ℕ → MrobEntry :=
  match w with
  | none => bank
  | some (a, m) => Function.update bank a m

/-- What is allocated in a slot. -/
def allocAt (q : ℕ) : Option Entry :=
  if c.allocTwo && decide (ringIdx b.nextTailPtr = q) then robNextTail s i
  else if c.alloc && decide (ringIdx b.tailPtr = q) then robTail s i
  else none

/-- How far a slot is from the head. -/
def distance (q : ℕ) : ℕ := (q + z.entries - ringIdx b.headPtr) % z.entries

/-- A slot after the allocations of a cycle and after its completions, which are written last. -/
def slotNext (q : ℕ) : Entry :=
  ((b.allocAt z s i c q).getD (b.entry q)).next s i (b.distance z q)

/-- An allocation, an issue or a completion writes the slot. -/
def touched (q : ℕ) : Bool := (b.allocAt z s i c q).isSome || i.names (b.distance z q)

/-- The head moves by what retires, or by the bump. -/
def advanceHead (p : BitVec (z.lg + 1)) : BitVec (z.lg + 1) :=
  if c.retire || c.bumpRobHead then
    if c.retireTwo then robPtrInc z p 2 else robPtrInc z p 1
  else p

/-- The tail moves by what is allocated. -/
def advanceTail (p : BitVec (z.lg + 1)) : BitVec (z.lg + 1) :=
  if c.alloc && !c.allocTwo then robPtrInc z p 1
  else if c.alloc && c.allocTwo then robPtrInc z p 2
  else p

/-- A bank of `r_rob_even` or `r_rob_odd`.  A clear resets the fault bits only. -/
def crobNext (odd : Bool) (bank : ℕ → CrobEntry) (a : ℕ) : CrobEntry :=
  if c.clrRob then { bank a with faulted := false }
  else if b.touched z s i c (2 * a + odd.toNat) then
    robToCrob (b.slotNext z s i c (2 * a + odd.toNat))
  else bank a

/-- The registers of the reorder buffer after a clock edge. -/
def next : Rob z.lg where
  headPtr := if c.clrRob then 0 else advanceHead z c b.headPtr
  nextHeadPtr := if c.clrRob then 1 else advanceHead z c b.nextHeadPtr
  tailPtr := if c.clrRob then 0 else advanceTail z c b.tailPtr
  nextTailPtr := if c.clrRob then 1 else advanceTail z c b.nextTailPtr
  mrobEven := written (b.mrobWrite z s i c false) b.mrobEven
  mrobOdd := written (b.mrobWrite z s i c true) b.mrobOdd
  robEven := b.crobNext z s i c false b.robEven
  robOdd := b.crobNext z s i c true b.robOdd
  complete q :=
    !c.clrRob &&
      if b.touched z s i c q then (b.slotNext z s i c q).complete else b.complete q
  sdComplete q :=
    !c.clrRob &&
      if b.touched z s i c q then (b.slotNext z s i c q).sdComplete else b.sdComplete q

/-- How many entries the pointers say there are. -/
def occupancy : ℕ :=
  if b.robFull then z.entries
  else (ringIdx b.tailPtr + z.entries - ringIdx b.headPtr) % z.entries

/-- The live entries, oldest first. -/
def live : List Entry :=
  (List.range (b.occupancy z)).map fun k => b.entry ((ringIdx b.headPtr + k) % z.entries)

end Cycle

end Rob

/-- The core with its reorder buffer in the banks. -/
structure BankedCore (z : RobSize) where
  regs : Regs
  rob : Rob z.lg
  dq : List Uop
  decDelaySlot : Bool

namespace BankedCore

variable {z : RobSize}

/-- The core that the banks stand for. -/
def view (x : BankedCore z) : State := ⟨x.regs, x.rob.live z, x.dq, x.decDelaySlot⟩

def next (p : Params) (x : BankedCore z) (i : Input) : BankedCore z :=
  let s := Core.next p x.view i
  { regs := s.regs
    rob := x.rob.next z x.view i (comb p x.view i)
    dq := s.dq
    decDelaySlot := s.decDelaySlot }

/-- After reset, with whatever the banks hold. -/
def reset (b : Rob z.lg) : BankedCore z where
  regs := Core.reset.regs
  rob := { b with headPtr := 0, nextHeadPtr := 1, tailPtr := 0, nextTailPtr := 1 }
  dq := []
  decDelaySlot := false

end BankedCore

/-- Nothing completes in a slot that is allocated in the same cycle. -/
def Lands (p : Params) (s : State) (i : Input) : Prop :=
  ∀ j < allocating (comb p s i), i.names (s.rob.length + j) = false

instance (p : Params) (s : State) (i : Input) : Decidable (Lands p s i) :=
  inferInstanceAs (Decidable (∀ j < _, _))

/-! ## The pointers -/

section Pointers

variable (z : RobSize)

theorem RobSize.two_le : 2 ≤ z.entries := by
  have hpos : 0 < z.entries := (Nat.zero_le _).trans_lt z.gt
  have := z.even
  omega

theorem RobSize.pos : 0 < z.entries := lt_of_lt_of_le Nat.two_pos z.two_le

theorem RobSize.lg_pos : 0 < z.lg := by
  refine Nat.pos_of_ne_zero fun h0 => ?_
  have := z.le.trans_eq (by rw [h0])
  have := z.two_le
  omega

/-- The parity of an index is that of the position. -/
theorem RobSize.mod_two (m : ℕ) : m % z.entries % 2 = m % 2 :=
  Nat.mod_mod_of_dvd m (Nat.dvd_of_mod_eq_zero z.even)

/-- The lowest bit of a pointer is that of its index. -/
theorem bank_eq (p : BitVec (z.lg + 1)) : p.getLsbD 0 = decide (ringIdx p % 2 = 1) := by
  have hd : 2 ∣ 2 ^ z.lg := dvd_pow_self 2 z.lg_pos.ne'
  rw [ringIdx, Nat.mod_mod_of_dvd _ hd, BitVec.getLsbD, Nat.testBit_zero]

theorem idx_ringPtr (m : ℕ) : ringIdx (ringPtr z.lg z.entries m) = m % z.entries :=
  Hw.ringIdx_ringPtr z.pos z.le m

/-- **The increment of a pointer**, for every size of the ring. -/
theorem robPtrInc_ringPtr (m : ℕ) {k : ℕ} (hk : k ≤ 2) :
    robPtrInc z (ringPtr z.lg z.entries m) k = ringPtr z.lg z.entries (m + k) := by
  have hn := z.two_le
  unfold robPtrInc
  split
  next hp =>
    rw [hp]
    exact Hw.ringPtr_pow2_add z.lg m k
  next hp =>
    apply BitVec.eq_of_toNat_eq
    have hlt : m % z.entries < z.entries := Nat.mod_lt m z.pos
    have hp2 : 2 ^ (z.lg + 1) = 2 * 2 ^ z.lg := Nat.pow_succ' ..
    have hle := z.le
    -- the index and the wrap bit of the pointer
    have hidx : ((ringPtr z.lg z.entries m).setWidth z.lg).toNat = m % z.entries := by
      rw [BitVec.toNat_setWidth]
      exact idx_ringPtr z m
    have hmsb : (ringPtr z.lg z.entries m).msb = decide (m / z.entries % 2 = 1) := by
      rw [BitVec.msb_eq_decide, Hw.ringPtr_toNat z.pos z.le, Nat.add_sub_cancel]
      rcases Nat.mod_two_eq_zero_or_one (m / z.entries) with h | h <;> simp [h]
      omega
    have hsum : (((ringPtr z.lg z.entries m).setWidth z.lg).setWidth (z.lg + 1) +
        BitVec.ofNat (z.lg + 1) k).toNat = m % z.entries + k := by
      rw [BitVec.toNat_add, BitVec.toNat_setWidth, hidx, BitVec.toNat_ofNat, hp2,
        Nat.mod_eq_of_lt (show m % z.entries < 2 * 2 ^ z.lg by omega),
        Nat.mod_eq_of_lt (show k < 2 * 2 ^ z.lg by omega), Nat.mod_eq_of_lt (by omega)]
    have hm := Nat.div_add_mod m z.entries
    rw [Hw.ringPtr_toNat z.pos z.le, robPtrIncNpow2, hsum, hmsb, BitVec.toNat_cons',
      Nat.shiftLeft_eq]
    by_cases hw : z.entries ≤ m % z.entries + k
    · obtain ⟨hq, hr⟩ : (m + k) / z.entries = m / z.entries + 1 ∧
          (m + k) % z.entries = m % z.entries + k - z.entries := by
        rw [Nat.div_mod_unique z.pos, Nat.mul_succ]
        omega
      have hsub : ((((ringPtr z.lg z.entries m).setWidth z.lg).setWidth (z.lg + 1) +
          BitVec.ofNat (z.lg + 1) k - BitVec.ofNat (z.lg + 1) z.entries).setWidth z.lg).toNat =
          m % z.entries + k - z.entries := by
        rw [BitVec.toNat_setWidth, BitVec.toNat_sub_of_le, hsum, BitVec.toNat_ofNat, hp2,
          Nat.mod_eq_of_lt (show z.entries < 2 * 2 ^ z.lg by omega), Nat.mod_eq_of_lt (by omega)]
        rw [BitVec.le_def, hsum, BitVec.toNat_ofNat, hp2,
          Nat.mod_eq_of_lt (show z.entries < 2 * 2 ^ z.lg by omega)]
        exact hw
      simp only [hw, decide_true, if_true, hsub, hq, hr]
      rcases Nat.mod_two_eq_zero_or_one (m / z.entries) with h | h <;>
        simp [h, Nat.add_mod]
    · obtain ⟨hq, hr⟩ : (m + k) / z.entries = m / z.entries ∧
          (m + k) % z.entries = m % z.entries + k := by
        rw [Nat.div_mod_unique z.pos]
        omega
      simp only [hw, decide_false, if_false, Bool.false_eq_true, hq, hr, BitVec.toNat_setWidth,
        hsum, Bool.xor_false]
      rw [Nat.mod_eq_of_lt (show m % z.entries + k < 2 ^ z.lg by omega)]
      rcases Nat.mod_two_eq_zero_or_one (m / z.entries) with h | h <;> simp [h]

end Pointers

/-! ## The list in the ring -/

/-- The banks hold a list of entries from a position on. -/
structure Banked (z : RobSize) (b : Rob z.lg) (l : List Entry) (pos : ℕ) : Prop where
  head : b.headPtr = ringPtr z.lg z.entries pos
  nextHead : b.nextHeadPtr = ringPtr z.lg z.entries (pos + 1)
  tail : b.tailPtr = ringPtr z.lg z.entries (pos + l.length)
  nextTail : b.nextTailPtr = ringPtr z.lg z.entries (pos + l.length + 1)
  le : l.length ≤ z.entries
  slots : ∀ k e, l[k]? = some e → b.entry ((pos + k) % z.entries) = e

namespace Banked

variable {z : RobSize} {b : Rob z.lg} {l : List Entry} {pos : ℕ}

theorem read_eq (q : BitVec (z.lg + 1)) : b.read q = b.entry (ringIdx q) := by
  rw [Rob.read, Rob.entry, bank_eq]
  simp only [decide_eq_true_eq]

section Tests

variable (h : Banked z b l pos)

include h

theorem empty_eq : b.robEmpty = l.isEmpty := by
  rw [Bool.eq_iff_iff, Rob.robEmpty, decide_eq_true_eq, h.head, h.tail, List.isEmpty_iff_length_eq_zero]
  have hle := h.le
  have := z.two_le
  rw [Hw.ring_empty_iff z.pos z.le (Nat.le_add_right pos _) (by omega)]
  omega

theorem nextEmpty_eq : b.robNextEmpty = decide (l.length = 1) := by
  have hle := h.le
  have := z.two_le
  rw [Rob.robNextEmpty, h.nextHead, h.tail, decide_eq_decide]
  rcases Nat.eq_zero_or_pos l.length with h0 | hpos
  · rw [eq_comm, Hw.ring_empty_iff z.pos z.le (by omega) (by omega)]
    omega
  · rw [Hw.ring_empty_iff z.pos z.le (by omega) (by omega)]
    omega

theorem full_eq : b.robFull = decide (l.length = z.entries) := by
  have hle := h.le
  have := z.two_le
  rw [Rob.robFull, h.head, h.tail, decide_eq_decide,
    Hw.ring_full_iff z.pos z.le (Nat.le_add_right pos _) (by omega)]
  omega

theorem nextFull_eq : b.robNextFull = decide (l.length + 1 = z.entries) := by
  have hle := h.le
  have := z.two_le
  rw [Rob.robNextFull, h.head, h.nextTail, decide_eq_decide,
    Hw.ring_full_iff z.pos z.le (by omega) (by omega)]
  omega

theorem head_idx : ringIdx b.headPtr = pos % z.entries := by rw [h.head, idx_ringPtr]

theorem distance_eq {k : ℕ} (hk : k < z.entries) : b.distance z ((pos + k) % z.entries) = k := by
  have hlt := Nat.mod_lt pos z.pos
  rw [Rob.distance, h.head_idx, Nat.add_mod pos k, Nat.mod_eq_of_lt hk]
  by_cases hw : pos % z.entries + k < z.entries
  · rw [Nat.mod_eq_of_lt hw, Nat.mod_eq_sub_mod (by omega), Nat.mod_eq_of_lt (by omega)]
    omega
  · rw [Nat.mod_eq_sub_mod (show pos % z.entries + k ≥ z.entries by omega),
      Nat.mod_eq_of_lt (show pos % z.entries + k - z.entries < z.entries by omega),
      Nat.mod_eq_of_lt (by omega)]
    omega

theorem occupancy_eq : b.occupancy z = l.length := by
  have hle := h.le
  rw [Rob.occupancy, h.full_eq]
  by_cases hf : l.length = z.entries
  · rw [if_pos (by simpa using hf), hf]
  · rw [if_neg (by simpa using hf), h.tail, idx_ringPtr]
    exact h.distance_eq (by omega)

theorem live_eq : b.live z = l := by
  rw [Rob.live, h.occupancy_eq]
  apply List.ext_getElem?
  intro k
  rw [List.getElem?_map]
  by_cases hk : k < l.length
  · obtain ⟨e, he⟩ : ∃ e, l[k]? = some e := ⟨_, List.getElem?_eq_getElem hk⟩
    rw [List.getElem?_range hk, Option.map_some, h.head_idx, Nat.mod_add_mod, h.slots k e he, he]
  · rw [List.getElem?_eq_none (by simpa using hk), List.getElem?_eq_none (by omega)]
    rfl

theorem robHead_eq {e : Entry} {es : List Entry} (hl : l = e :: es) : b.robHead = e := by
  rw [Rob.robHead, read_eq, h.head_idx]
  exact h.slots 0 e (by rw [hl]; rfl)

theorem robNextHead_eq {e f : Entry} {es : List Entry} (hl : l = e :: f :: es) :
    b.robNextHead = f := by
  rw [Rob.robNextHead, read_eq, h.nextHead, idx_ringPtr]
  exact h.slots 1 f (by rw [hl]; rfl)

/-- The two slots at the tail are in different banks. -/
theorem banks_ne : b.tailPtr.getLsbD 0 ≠ b.nextTailPtr.getLsbD 0 := by
  rw [bank_eq, bank_eq, h.tail, h.nextTail, idx_ringPtr, idx_ringPtr, z.mod_two, z.mod_two, Ne,
    decide_eq_decide]
  omega

end Tests

/-! ## A cycle keeps the list -/

section Next

variable {p : Params} {s : State} {i : Input}

/-- The slots of two places of the ring are different. -/
theorem slot_ne (pos : ℕ) {j k : ℕ} (hj : j < z.entries) (hk : k < z.entries) (hne : j ≠ k) :
    (pos + j) % z.entries ≠ (pos + k) % z.entries := by
  intro he
  have hm : j ≡ k [MOD z.entries] := Nat.ModEq.add_left_cancel' pos he
  rw [Nat.ModEq, Nat.mod_eq_of_lt hj, Nat.mod_eq_of_lt hk] at hm
  exact hne hm

/-- A pointer is that of a slot of a bank. -/
theorem idx_iff (q : BitVec (z.lg + 1)) (odd : Bool) (a : ℕ) :
    ringIdx q = 2 * a + odd.toNat ↔ q.getLsbD 0 = odd ∧ ringIdx q / 2 = a := by
  rw [bank_eq]
  cases odd <;> simp <;> omega

/-- What the write port of a bank leaves in a slot is of the entry that is allocated there, or
of the one it held. -/
theorem mrob_written {c : Comb} (hclr : c.clrRob = false)
    (hb : b.tailPtr.getLsbD 0 ≠ b.nextTailPtr.getLsbD 0) (odd : Bool) (bank : ℕ → MrobEntry)
    (a : ℕ) :
    Rob.written (b.mrobWrite z s i c odd) bank a =
      ((b.allocAt z s i c (2 * a + odd.toNat)).map robToMrob).getD (bank a) := by
  have put (w : Option Entry) (a' : ℕ) : Rob.written (w.map fun e => (a', robToMrob e)) bank a =
      ((if a' = a then w else none).map robToMrob).getD (bank a) := by
    rcases w with _ | e
    · by_cases ha : a' = a <;> simp [Rob.written, ha]
    · by_cases ha : a' = a
      · simp [Rob.written, ha]
      · simp [Rob.written, ha, Function.update_of_ne (Ne.symm ha)]
  have hnone : Rob.written none bank a = ((none : Option Entry).map robToMrob).getD (bank a) := rfl
  unfold Rob.mrobWrite Rob.allocAt
  simp only [hclr, Bool.false_eq_true, if_false, idx_iff]
  generalize b.tailPtr.getLsbD 0 = tb at hb ⊢
  generalize b.nextTailPtr.getLsbD 0 = ntb at hb ⊢
  rcases h2 : c.allocTwo with _ | _
  · rcases h1 : c.alloc with _ | _
    · exact hnone
    · by_cases ht : tb = odd <;> simp [ht, put, hnone]
  · by_cases hnt : ntb = odd
    · -- the other bank is that of the tail
      have ht : tb ≠ odd := fun ht => hb (ht.trans hnt.symm)
      simp [hnt, ht, put]
    · rcases h1 : c.alloc with _ | _
      · simp [hnt, hnone]
      · by_cases ht : tb = odd <;> simp [hnt, ht, put, hnone]

theorem slotNext_untouched {c : Comb} {q : ℕ} (h : b.touched z s i c q = false) :
    b.slotNext z s i c q = b.entry q := by
  rw [Rob.touched, Bool.or_eq_false_iff, Option.isSome_eq_false_iff, Option.isNone_iff_eq_none] at h
  rw [Rob.slotNext, h.1, Option.getD_none, Entry.next_of_unnamed h.2]

/-- A slot after a cycle. -/
theorem entry_next {c : Comb} (hclr : c.clrRob = false)
    (hb : b.tailPtr.getLsbD 0 ≠ b.nextTailPtr.getLsbD 0) (q : ℕ) :
    (b.next z s i c).entry q = b.slotNext z s i c q := by
  have hfix (e : Entry) (k : ℕ) : robToMrob (e.next s i k) = robToMrob e := by
    simp [robToMrob]
  have hm (odd : Bool) (bank : ℕ → MrobEntry) (hq : q = 2 * (q / 2) + odd.toNat)
      (he : robToMrob (b.entry q) = bank (q / 2)) :
      Rob.written (b.mrobWrite z s i c odd) bank (q / 2) = robToMrob (b.slotNext z s i c q) := by
    rw [mrob_written hclr hb, ← hq, Rob.slotNext, hfix, ← he]
    rcases b.allocAt z s i c q with _ | _ <;> rfl
  rw [Rob.entry]
  simp only [Rob.next, Rob.crobNext, hclr, Bool.not_false, Bool.true_and, Bool.false_eq_true,
    if_false]
  by_cases hq : q % 2 = 1
  · have hq' : q = 2 * (q / 2) + true.toNat := by rw [Bool.toNat_true]; omega
    have he : b.entry q =
        robMerge (b.mrobOdd (q / 2)) (b.robOdd (q / 2)) (b.complete q) (b.sdComplete q) := if_pos hq
    rw [if_pos hq, hm true b.mrobOdd hq' (by rw [he]; rfl), ← hq']
    rcases ht : b.touched z s i c q with _ | _
    · rw [slotNext_untouched ht, he]
      rfl
    · rfl
  · have hq' : q = 2 * (q / 2) + false.toNat := by rw [Bool.toNat_false]; omega
    have he : b.entry q =
        robMerge (b.mrobEven (q / 2)) (b.robEven (q / 2)) (b.complete q) (b.sdComplete q) :=
      if_neg hq
    rw [if_neg hq, hm false b.mrobEven hq' (by rw [he]; rfl), ← hq']
    rcases ht : b.touched z s i c q with _ | _
    · rw [slotNext_untouched ht, he]
      rfl
    · rfl

variable {pos : ℕ}

/-- No live entry is written over. -/
theorem allocAt_old {c : Comb} (h : Banked z b s.rob pos) (ha : Alloc p s i c)
    (hz : p.robEntries = z.entries) {k : ℕ} (hk : k < s.rob.length) :
    b.allocAt z s i c ((pos + k) % z.entries) = none := by
  unfold Rob.allocAt
  rw [h.tail, h.nextTail, idx_ringPtr, idx_ringPtr]
  cases ha with
  | none ha h2 => simp [ha, h2]
  | one u us hdq ha h2 hnew hroom =>
    have hne := slot_ne (z := z) pos (j := s.rob.length) (k := k) (by omega) (by omega)
      (by omega)
    simp [h2, hne]
  | two u v us hdq ha h2 hnew hroom =>
    have hne := slot_ne (z := z) pos (j := s.rob.length) (k := k) (by omega) (by omega)
      (by omega)
    have hne2 := slot_ne (z := z) pos (j := s.rob.length + 1) (k := k) (by omega)
      (by omega) (by omega)
    simp [hne, ← Nat.add_assoc pos] at hne2 ⊢
    simp [hne2]

/-- The new entries are in the slots behind the last one. -/
theorem allocAt_new {c : Comb} (h : Banked z b s.rob pos) (ha : Alloc p s i c)
    (hz : p.robEntries = z.entries) {j : ℕ} {e : Entry} (hj : (newEntries s i c)[j]? = some e) :
    b.allocAt z s i c ((pos + (s.rob.length + j)) % z.entries) = some e ∧
      s.rob.length + j < z.entries ∧ j < allocating c := by
  unfold Rob.allocAt
  rw [h.tail, h.nextTail, idx_ringPtr, idx_ringPtr]
  cases ha with
  | none ha h2 hnew => simp [hnew] at hj
  | one u us hdq ha h2 hnew hroom =>
    rw [hnew] at hj
    obtain ⟨rfl, rfl⟩ : j = 0 ∧ Entry.alloc u s.regs.inDelaySlot i.tag = e := by
      rcases j with _ | j
      · exact ⟨rfl, Option.some.inj hj⟩
      · cases hj
    simp [h2, ha, robTail, hdq, allocating]
    omega
  | two u v us hdq ha h2 hnew hroom =>
    rw [hnew] at hj
    have hne := slot_ne (z := z) pos (j := s.rob.length + 1) (k := s.rob.length)
      (by omega) (by omega) (by omega)
    rcases j with _ | _ | j
    · obtain rfl := Option.some.inj hj
      simp [← Nat.add_assoc pos] at hne
      simp [h2, ha, robTail, hdq, allocating, hne]
      omega
    · obtain rfl := Option.some.inj hj
      simp [h2, ha, robNextTail, hdq, allocating, Nat.add_assoc]
      omega
    · cases hj

theorem advanceHead_ringPtr (c : Comb) (m : ℕ) :
    Rob.advanceHead z c (ringPtr z.lg z.entries m) = ringPtr z.lg z.entries (m + leaving c) := by
  rw [Rob.advanceHead, leaving]
  split
  · split
    · exact robPtrInc_ringPtr z m le_rfl
    · exact robPtrInc_ringPtr z m (by decide)
  · rfl

theorem advanceTail_ringPtr (c : Comb) (m : ℕ) :
    Rob.advanceTail z c (ringPtr z.lg z.entries m) = ringPtr z.lg z.entries (m + allocating c) := by
  rw [Rob.advanceTail, allocating]
  rcases c.alloc with _ | _
  · rfl
  · rcases c.allocTwo with _ | _
    · exact robPtrInc_ringPtr z m (by decide)
    · exact robPtrInc_ringPtr z m le_rfl

theorem newEntries_length {c : Comb} (ha : Alloc p s i c) :
    (newEntries s i c).length = allocating c := by
  cases ha with
  | none ha h2 hnew => simp [hnew, allocating, ha]
  | one u us hdq ha h2 hnew => simp [hnew, allocating, ha, h2]
  | two u v us hdq ha h2 hnew => simp [hnew, allocating, ha, h2]

/-- **The step lemma**: the banks hold the next list. -/
theorem next_of (h : Banked z b s.rob pos) (hsane : Sane s) (hz : p.robEntries = z.entries)
    (hl : Lands p s i) :
    ∃ pos', Banked z (b.next z s i (comb p s i)) (Core.next p s i).rob pos' := by
  have ha := alloc_turn (p := p) (i := i) hsane.rob hsane.fits
  have hle := leaving_le (p := p) (i := i) hsane.rob hsane.fits
  have hlen : (Core.next p s i).rob.length ≤ z.entries := by
    rw [← hz]
    exact rob_le hsane.rob hsane.fits (h.le.trans_eq hz.symm)
  cases hclr : (comb p s i).clrRob with
  | true =>
    rw [rob_clear hclr] at hlen ⊢
    have hz0 : (0 : BitVec (z.lg + 1)) = ringPtr z.lg z.entries 0 := by
      simp [ringPtr]
    have hz1 : (1 : BitVec (z.lg + 1)) = ringPtr z.lg z.entries 1 := by
      have := z.two_le
      simp [ringPtr, Nat.div_eq_of_lt (show 1 < z.entries by omega),
        Nat.mod_eq_of_lt (show 1 < z.entries by omega)]
    refine ⟨0, ?_, ?_, ?_, ?_, hlen, fun k e he => by cases he⟩ <;> simp [Rob.next, hclr, hz0, hz1]
  | false =>
    have hnext := rob_next hclr
    have htail : pos + leaving (comb p s i) + (Core.next p s i).rob.length =
        pos + s.rob.length + allocating (comb p s i) := by
      rw [hnext, List.length_append, List.length_drop, progress_length, newEntries_length ha]
      omega
    refine ⟨pos + leaving (comb p s i), ?_, ?_, ?_, ?_, hlen, fun k e he => ?_⟩
    · simp [Rob.next, hclr, h.head, advanceHead_ringPtr]
    · simp [Rob.next, hclr, h.nextHead, advanceHead_ringPtr, Nat.add_right_comm]
    · simp [Rob.next, hclr, h.tail, advanceTail_ringPtr, htail]
    · simp [Rob.next, hclr, h.nextTail, advanceTail_ringPtr, htail, Nat.add_right_comm]
    · rw [entry_next hclr h.banks_ne, Rob.slotNext, Nat.add_assoc]
      obtain ⟨-, ⟨e₀, he₀, rfl⟩ | ⟨hk, hnew⟩⟩ := next_getElem? hsane.rob hsane.fits he
      · have hlt := (List.getElem?_eq_some_iff.mp he₀).1
        rw [allocAt_old h ha hz hlt, Option.getD_none, h.slots _ _ he₀,
          h.distance_eq (hlt.trans_le h.le)]
      · obtain ⟨j, hj⟩ : ∃ j, leaving (comb p s i) + k = s.rob.length + j :=
          ⟨_, (Nat.add_sub_cancel' hk).symm⟩
        rw [hj, Nat.add_sub_cancel_left] at hnew
        obtain ⟨hat, hroom, hjlt⟩ := allocAt_new h ha hz hnew
        rw [hj, hat, Option.getD_some, h.distance_eq hroom]
        exact Entry.next_of_unnamed (hl j hjlt) e

end Next

theorem reset_of (b : Rob z.lg) : Banked z (BankedCore.reset b).rob [] 0 := by
  have := z.two_le
  refine ⟨?_, ?_, ?_, ?_, Nat.zero_le _, fun k e he => by cases he⟩ <;>
    simp [BankedCore.reset, ringPtr, Nat.div_eq_of_lt (show 1 < z.entries by omega),
      Nat.mod_eq_of_lt (show 1 < z.entries by omega)]

end Banked

/-! ## Runs -/

/-- The core with the banks is in the state of the core with the list. -/
structure Refines (p : Params) (z : RobSize) (x : BankedCore z) (s : State) : Prop where
  sane : Sane s
  view : x.view = s
  banked : ∃ pos, Banked z x.rob s.rob pos

theorem refines_next {p : Params} {z : RobSize} {x : BankedCore z} {s : State} {i : Input}
    (h : Refines p z x s) (hz : p.robEntries = z.entries) (hl : Lands p x.view i) :
    Refines p z (x.next p i) (next p s i) := by
  obtain ⟨hs, rfl, pos, hb⟩ := h
  obtain ⟨pos', hb'⟩ := hb.next_of (i := i) hs hz hl
  refine ⟨sane_next hs, ?_, pos', hb'⟩
  rw [BankedCore.view, BankedCore.next]
  simp only [hb'.live_eq]

theorem refines_run {p : Params} {z : RobSize} {x : BankedCore z} {s : State} {is : List Input}
    (h : Refines p z x s) (hz : p.robEntries = z.entries)
    (hr : Hw.RunOk (BankedCore.next p) (fun x i => Lands p x.view i) x is) :
    Refines p z (Hw.run (BankedCore.next p) x is) (Hw.run (next p) s is) := by
  induction is generalizing x s with
  | nil => exact h
  | cons i is ih => exact ih (refines_next h hz hr.1) hr.2

/-- **The banks of the reorder buffer are a list.**  For every even size of the ring and whatever
the banks hold at reset: the core that keeps its reorder buffer in the banks and the core that
keeps it in a list go through the same states.  In each of them the tests of the pointers are
those of the list, the two heads that are read are its two oldest entries, the next pointers are
the successors of the pointers, and the two slots of a dual allocation are in different banks. -/
theorem rob_refines (p : Params) (z : RobSize) (hz : p.robEntries = z.entries) (b : Rob z.lg)
    (is : List Input)
    (h : Hw.RunOk (BankedCore.next p) (fun x i => Lands p x.view i) (BankedCore.reset b) is) :
    let x := Hw.run (BankedCore.next p) (BankedCore.reset b) is
    let s := Hw.run (next p) reset is
    x.view = s ∧
      x.rob.robEmpty = s.rob.isEmpty ∧ x.rob.robNextEmpty = decide (s.rob.length = 1) ∧
      x.rob.robFull = decide (s.rob.length = p.robEntries) ∧
      x.rob.robNextFull = decide (s.rob.length + 1 = p.robEntries) ∧
      (∀ e es, s.rob = e :: es → x.rob.robHead = e) ∧
      (∀ e f es, s.rob = e :: f :: es → x.rob.robNextHead = f) ∧
      x.rob.nextHeadPtr = robPtrInc z x.rob.headPtr 1 ∧
      x.rob.nextTailPtr = robPtrInc z x.rob.tailPtr 1 ∧
      x.rob.tailPtr.getLsbD 0 ≠ x.rob.nextTailPtr.getLsbD 0 := by
  intro x s
  have hreset : Refines p z (BankedCore.reset b) reset := by
    refine ⟨sane_reset, ?_, 0, Banked.reset_of b⟩
    rw [BankedCore.view, (Banked.reset_of b).live_eq]
    rfl
  obtain ⟨-, hv, pos, hb⟩ : Refines p z x s := refines_run hreset hz h
  refine ⟨hv, hb.empty_eq, hb.nextEmpty_eq, hz ▸ hb.full_eq, hz ▸ hb.nextFull_eq,
    fun e es he => hb.robHead_eq he, fun e f es he => hb.robNextHead_eq he, ?_, ?_, hb.banks_ne⟩
  · rw [hb.head, hb.nextHead, robPtrInc_ringPtr z pos (by decide)]
  · rw [hb.tail, hb.nextTail, robPtrInc_ringPtr z _ (by decide)]

/-- A ring of twelve entries. -/
def twelve : RobSize := ⟨4, 12, by decide, by decide, by decide⟩

/-- Banks that hold one entry everywhere. -/
def filled (lg : ℕ) : Rob lg :=
  let e := Entry.alloc (Uop.irq 0 0) false ⟨0, 0, 0⟩
  ⟨0, 0, 0, 0, fun _ => robToMrob e, fun _ => robToMrob e, fun _ => robToCrob e,
    fun _ => robToCrob e, fun _ => false, fun _ => false⟩

/-- Seven pairs of additions, of which six fit until the first two retire. -/
def pairs : List Input :=
  boot ++
    (List.replicate 7 [{ quiet with
      insn := some ⟨.fpArith 2 0x2000, false, false, by decide⟩
      insnTwo := some ⟨.fpArith 3 0x2004, false, false, by decide⟩ }, quiet]).flatten ++
    [{ quiet with fpDone := some (0, ⟨false, 1, 0⟩) },
     { quiet with fpDone := some (1, ⟨false, 0, 0⟩) }, quiet, quiet]

theorem rob_refines_pairs :
    let x := Hw.run (BankedCore.next ⟨12, 4, 1024, by decide, by decide⟩)
      (BankedCore.reset (filled twelve.lg)) pairs
    x.rob.robFull = true ∧ x.view.rob.length = 12 := by
  intro x
  have hf : x.rob.robFull = true := by decide +kernel
  obtain ⟨hv, -, -, hfull, -⟩ := rob_refines ⟨12, 4, 1024, by decide, by decide⟩ twelve rfl
    (filled twelve.lg) pairs (by decide +kernel)
  refine ⟨hf, ?_⟩
  rw [hv]
  exact of_decide_eq_true (hfull.symm.trans hf)

end Core

end R9999
