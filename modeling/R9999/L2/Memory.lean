import R9999.Hw.DirectMapped
import R9999.L2.Control

/-!
# The memory the L2 presents

The L2 and DRAM together present one memory.  In the middle of a transaction the pieces
of that memory are spread over the array, the request registers and the write in flight:
a line being evicted lives in the write-back register, a line that a probe returned dirty
lives in the probe register, a writeback that was acknowledged early lives in the store
register.  `MemInv` collects the pieces: the memory `M` is the value of the resident
slots (`slots`) over DRAM with the write in flight applied (`dramView`), updated by the
operation in service (`inService`).

`memInv_step` is the step lemma: one clock edge of the L2 keeps the equation, where `M`
changes only by the operations that are accepted and by the dirty lines that probes bring
in (`accesses`), and DRAM changes only by the reply to a write (`dramNext`).
-/

namespace R9999

/-- A memory: the contents of every line. -/
abbrev Mem := LineAddr → Line

/-- What an operation does to the presented memory. -/
inductive Access where
  /-- The line is read. -/
  | load (x : LineAddr)
  /-- The line is cleaned, invalidated or snooped with write-back. -/
  | clean (x : LineAddr)
  /-- The bytes under the mask are written. -/
  | write (x : LineAddr) (mask : Mask) (data : Line)
  /-- The cached copies are discarded; DRAM holds the given contents. -/
  | drop (x : LineAddr) (data : Line)

/-- The effect of an operation on the memory. -/
def Access.apply : Access → Mem → Mem
  | .load _, M => M
  | .clean _, M => M
  | .write x mask data, M => Function.update M x (Line.merge mask data (M x))
  | .drop x data, M => Function.update M x data

/-- The operation an L1 request asks for, given the contents of DRAM. -/
def Access.ofReq (i : L2.Input) (d : Mem) : Access :=
  match i.req.opcode with
  | .sw => .write i.req.addr (if L2.l2Cacheable i then Mask.full else i.req.mask) i.req.storeData
  | .wb => .write i.req.addr Mask.full i.req.storeData
  | .pgdrop => .drop i.req.addr (d i.req.addr)
  | .lw => .load i.req.addr
  | _ => .clean i.req.addr

/-- The operation a snoop asks for, given the contents of DRAM. -/
def Access.ofSnoop (i : L2.Input) (d : Mem) : Access :=
  if i.snoopReqWbinv then .clean i.snoopReqAddr
  else .drop i.snoopReqAddr (d i.snoopReqAddr)

theorem Geometry.l2_inj (g : Geometry) (x y : LineAddr) (hi : g.l2Idx y = g.l2Idx x)
    (ht : g.l2Tag y = g.l2Tag x) : y = x := by
  rw [← g.l2Line_tag_idx y, ← g.l2Line_tag_idx x, hi, ht]

/-- The slot of an entry: its presence record is not part of the memory. -/
def L2Entry.slot (e : L2Entry) : Hw.Slot Nat Line := ⟨e.valid, e.dirty, e.tag, e.d0⟩

namespace L2View

open L2 Hw

/-- The slots as the transaction in progress sees them.  A line that is being replaced
is already gone; a line whose dirty L1D copy was probed out has that copy's data. -/
def slots (v : L2View) : Nat → Slot Nat Line :=
  match v.regs.state with
  | .dirtyStore | .storeTurnaround | .cleanReload =>
      Function.update (L2Entry.slot ∘ v.arr) v.regs.idx { v.cur.slot with valid := false }
  | .checkValidAndTag =>
      if v.regs.probeDirty then
        Function.update (L2Entry.slot ∘ v.arr) v.regs.idx
          { v.cur.slot with dirty := true, data := v.regs.probeData }
      else L2Entry.slot ∘ v.arr
  | _ => L2Entry.slot ∘ v.arr

/-- DRAM with the write-back in flight applied. -/
def dramView (r : Regs) (d : Mem) : Mem :=
  match r.state with
  | .dirtyStore | .flushStore | .uncacheWbDrain => Function.update d r.addr r.memReqStoreData
  | _ => d

/-- The memory after the operation in service, from the memory `M` before it. -/
def inService (r : Regs) (M d : Mem) : Mem :=
  match r.state with
  | .waitForRam | .checkValidAndTag =>
      if r.isUncache then
        if r.opcode = .sw then
          Function.update M r.saveaddr (Line.merge r.uncacheMask r.storeData (M r.saveaddr))
        else M
      else if r.opcode = .sw ∨ r.opcode = .wb then Function.update M r.saveaddr r.storeData
      else if r.opcode = .pgdrop ∨ (r.opcode = .snoopInvl ∧ r.snpWbinv = false) then
        Function.update M r.saveaddr (d r.saveaddr)
      else M
  | .dirtyStore | .storeTurnaround | .cleanReload | .waitCleanReload =>
      if r.opcode = .sw then Function.update M r.saveaddr r.storeData else M
  | .uncacheWbDrain | .uncacheWbTurnaround =>
      if r.opcode = .sw then
        Function.update M r.saveaddr (Line.merge r.uncacheMask r.storeData (M r.saveaddr))
      else M
  | .uncacheStore =>
      Function.update M r.saveaddr (Line.merge r.storeMask r.memReqStoreData (M r.saveaddr))
  | _ => M

/-- The memory without the operation in service. -/
def base (g : Geometry) (v : L2View) (d : Mem) : Mem :=
  DirectMapped.value g.l2Idx g.l2Tag v.slots (dramView v.regs d)

/-- The L2 over DRAM `d` presents the memory `M`.  Until the array has been initialised
that is DRAM itself. -/
def MemInv (g : Geometry) (M d : Mem) (v : L2View) : Prop :=
  if v.regs.state = .init then
    M = d ∧ ∀ j, 0 < j → j ≤ v.regs.idx → (v.arr j).valid = false
  else
    M = inService v.regs (base g v d) d ∧
      DirectMapped.Coherent g.l2Idx g.l2Tag v.slots (dramView v.regs d)

/-- A reply of the memory: a write is performed when its reply arrives. -/
def dramNext (r : Regs) (i : Input) (d : Mem) : Mem :=
  if memWaiting r.state && i.memRspValid && r.memOpcode == .sw then
    Function.update d r.addr (Line.merge r.storeMask r.memReqStoreData (d r.addr))
  else d

/-- The snoop or request operation does not keep the line's cached value. -/
def discards (r : Regs) : Bool :=
  r.opcode == .pgdrop || (r.opcode == .snoopInvl && !r.snpWbinv)

/-- The operation that takes effect in this cycle: the one accepted in `IDLE`, or the
arrival of a dirty line that a probe returned. -/
def access (g : Geometry) (v : L2View) (i : Input) (d : Mem) : Access :=
  match v.regs.state with
  | .idle =>
      if (tick v.regs i).flushReq then .load 0
      else if i.snoopReqValid then .ofSnoop i d
      else if i.reqValid then .ofReq i d
      else .load 0
  | .checkValidAndTag =>
      if needsProbe v.regs v.cur && v.regs.probeReq && i.probeAck && i.probeDirty &&
          !discards v.regs then
        .write (g.l2Line v.cur.tag v.regs.idx) Mask.full i.probeData
      else .load 0
  | _ => .load 0

variable {g : Geometry} {v v' : L2View} {i : Input} {M d : Mem}

/-! ## The resident slot -/

theorem slot_comp_setCur (e : L2Entry) :
    L2Entry.slot ∘ v.setCur e = Function.update (L2Entry.slot ∘ v.arr) v.regs.idx e.slot := by
  rw [setCur, Function.comp_update]

/-- In `CHECK_VALID_AND_TAG` the resident slot holds the newest copy of its line. -/
theorem slots_check (hs : v.regs.state = .checkValidAndTag) :
    v.slots = Function.update (L2Entry.slot ∘ v.arr) v.regs.idx
      ⟨v.cur.valid, v.cur.dirty || v.regs.probeDirty, v.cur.tag, newest v.regs v.cur⟩ := by
  rw [slots, hs]
  cases hp : v.regs.probeDirty
  · simp only [Bool.false_eq_true, if_false, newest, hp, Bool.or_false]
    exact (Function.update_eq_self _ _).symm
  · simp [newest, hp, L2Entry.slot]

theorem has_iff_hit (hl : Lookup g v.regs)
    (hs : v.regs.state = .checkValidAndTag) :
    DirectMapped.Has g.l2Idx g.l2Tag v.slots v.regs.saveaddr ↔ hit v.regs v.cur = true := by
  rw [slots_check hs, DirectMapped.Has, ← hl.1, ← hl.2]
  simp only [Function.update_self, hit, Bool.and_eq_true, beq_iff_eq]
  exact and_congr_right fun _ => eq_comm

theorem slots_check_cur (hs : v.regs.state = .checkValidAndTag) :
    v.slots v.regs.idx =
      ⟨v.cur.valid, v.cur.dirty || v.regs.probeDirty, v.cur.tag, newest v.regs v.cur⟩ := by
  rw [slots_check hs, Function.update_self]

/-- Replacing the resident entry replaces the resident slot. -/
theorem slots_check_setCur (hs : v.regs.state = .checkValidAndTag) (e : L2Entry) :
    L2Entry.slot ∘ v.setCur e = Function.update v.slots v.regs.idx e.slot := by
  rw [slot_comp_setCur, slots_check hs, Function.update_idem]

theorem slots_check_invalid (hs : v.regs.state = .checkValidAndTag) :
    Function.update (L2Entry.slot ∘ v.arr) v.regs.idx { v.cur.slot with valid := false } =
      Function.update v.slots v.regs.idx { v.cur.slot with valid := false } := by
  rw [slots_check hs, Function.update_idem]

/-- Without a dirty probe the slots are the array. -/
theorem slots_check_clean (hs : v.regs.state = .checkValidAndTag)
    (hp : v.regs.probeDirty = false) : v.slots = L2Entry.slot ∘ v.arr := by
  simp [slots, hs, hp]

/-- Outside the reset walk, the two halves of the invariant. -/
theorem memInv_iff (hs : v.regs.state ≠ .init) :
    MemInv g M d v ↔ M = inService v.regs (base g v d) d ∧
      DirectMapped.Coherent g.l2Idx g.l2Tag v.slots (dramView v.regs d) := by
  rw [MemInv, if_neg hs]

/-- A state with the same slots and the same view of DRAM presents the same memory. -/
theorem MemInv.of_same {d' : Mem} (hm : MemInv g M d v) (hs : v.regs.state ≠ .init)
    (hs' : v'.regs.state ≠ .init) (hslots : v'.slots = v.slots)
    (hd : dramView v'.regs d' = dramView v.regs d)
    {M' : Mem} (hM : ∀ B, inService v.regs B d = M → B = base g v d →
      inService v'.regs B d' = M') : MemInv g M' d' v' := by
  rw [memInv_iff hs] at hm
  have hb : base g v' d' = base g v d := by rw [base, base, hslots, hd]
  rw [memInv_iff hs', hb, hslots, hd]
  exact ⟨(hM _ hm.1.symm rfl).symm, hm.2⟩

/-! ## The moves of the controller -/

section Moves

variable {e : Slot Nat Line} {d' : Mem}

/-- The cache is coherent with DRAM and the write in flight. -/
def Agrees (g : Geometry) (v : L2View) (d : Mem) : Prop :=
  DirectMapped.Coherent g.l2Idx g.l2Tag v.slots (dramView v.regs d)

/-- The next invariant from the next base memory. -/
theorem MemInv.of_base {M' : Mem} (hm : MemInv g M d v) (hs : v.regs.state ≠ .init)
    (hs' : v'.regs.state ≠ .init) {f : Mem → Mem}
    (h : Agrees g v d → base g v' d' = f (base g v d) ∧ Agrees g v' d')
    (hM : ∀ B, M = inService v.regs B d → B = base g v d → M' = inService v'.regs (f B) d') :
    MemInv g M' d' v' := by
  rw [memInv_iff hs] at hm
  obtain ⟨hb, hC⟩ := h hm.2
  rw [memInv_iff hs', hb]
  exact ⟨hM _ hm.1 rfl, hC⟩

/-- Giving up the resident line while its newest copy goes to DRAM. -/
theorem base_writeBack (hx : v.regs.idx < g.l2Lines) (hD : dramView v.regs d = d)
    (hv : (v.slots v.regs.idx).valid = true)
    (hS' : v'.slots = Function.update v.slots v.regs.idx e) (he : e.valid = false)
    (hD' : dramView v'.regs d =
      Function.update d (g.l2Line (v.slots v.regs.idx).tag v.regs.idx)
        (v.slots v.regs.idx).data) (hC : Agrees g v d) :
    base g v' d = id (base g v d) ∧ Agrees g v' d := by
  have hix := g.l2Idx_l2Line (v.slots v.regs.idx).tag hx
  have htx := g.l2Tag_l2Line (v.slots v.regs.idx).tag hx
  have hhas : DirectMapped.Has g.l2Idx g.l2Tag v.slots
      (g.l2Line (v.slots v.regs.idx).tag v.regs.idx) := by
    rw [DirectMapped.Has, hix, htx]
    exact ⟨hv, rfl⟩
  have hval := DirectMapped.value_writeBack (d := d) (g.l2_inj _) he hhas
  rw [hix] at hval
  rw [Agrees, hD] at hC
  refine ⟨?_, ?_⟩
  · rw [base, base, hS', hD', hD, hval, id]
  · rw [Agrees, hS', hD']
    exact (hC.forget he).store (DirectMapped.not_has_update_invalid he hix) _

/-- Giving up a resident line that is invalid or clean. -/
theorem base_forget
    (hv : (v.slots v.regs.idx).valid = true → (v.slots v.regs.idx).dirty = false)
    (hS' : v'.slots = Function.update v.slots v.regs.idx e) (he : e.valid = false)
    (hD' : dramView v'.regs d = dramView v.regs d) (hC : Agrees g v d) :
    base g v' d = id (base g v d) ∧ Agrees g v' d := by
  refine ⟨?_, ?_⟩
  · rw [base, base, hS', hD', DirectMapped.value_forget hC he hv, id]
  · rw [Agrees, hS', hD']
    exact hC.forget he

/-- Discarding the line looked up. -/
theorem base_drop (hl : Lookup g v.regs)
    (hhas : DirectMapped.Has g.l2Idx g.l2Tag v.slots v.regs.saveaddr)
    (hS' : v'.slots = Function.update v.slots v.regs.idx e) (he : e.valid = false)
    (hD : dramView v.regs d = d) (hD' : dramView v'.regs d = d) (hC : Agrees g v d) :
    base g v' d = (fun B => Function.update B v.regs.saveaddr (d v.regs.saveaddr)) (base g v d) ∧
      Agrees g v' d := by
  rw [Agrees, hD] at hC
  rw [hl.1] at hS'
  refine ⟨?_, ?_⟩
  · rw [base, base, hS', hD', hD, DirectMapped.value_drop (g.l2_inj _) he hhas]
  · rw [Agrees, hS', hD']
    exact hC.forget he

/-- Replacing the data of a resident line. -/
theorem base_write (x : LineAddr) (data : Line) (hx : v.regs.idx = g.l2Idx x)
    (hhas : DirectMapped.Has g.l2Idx g.l2Tag v.slots x)
    (hS' : v'.slots = Function.update v.slots v.regs.idx e) (he : e.valid = true)
    (ht : e.tag = (v.slots v.regs.idx).tag) (hd : e.dirty = true) (hdata : e.data = data)
    (hD' : dramView v'.regs d = dramView v.regs d) (hC : Agrees g v d) :
    base g v' d = (fun B => Function.update B x data) (base g v d) ∧ Agrees g v' d := by
  rw [hx] at hS' ht
  refine ⟨?_, ?_⟩
  · rw [base, base, hS', hD', DirectMapped.value_write (g.l2_inj _) hhas he ht, hdata]
  · rw [Agrees, hS', hD']
    exact hC.write hd

/-- Installing the line fetched from DRAM over a slot that was given up. -/
theorem base_install {x : LineAddr} (hx : v.regs.idx = g.l2Idx x)
    (hv : (v.slots v.regs.idx).valid = false)
    (hS' : v'.slots = Function.update v.slots v.regs.idx e) (ht : e.tag = g.l2Tag x)
    (hdata : e.data = d x) (hD : dramView v.regs d = d) (hD' : dramView v'.regs d = d)
    (hC : Agrees g v d) : base g v' d = id (base g v d) ∧ Agrees g v' d := by
  rw [Agrees, hD] at hC
  rw [hx] at hS' hv
  refine ⟨?_, ?_⟩
  · rw [base, base, hS', hD', hD, DirectMapped.value_install (g.l2_inj _) ht hdata hv, id]
  · rw [Agrees, hS', hD']
    exact hC.install (g.l2_inj _) ht hdata

/-- A write of DRAM at a line that is not resident. -/
theorem base_store {x : LineAddr} {data : Line}
    (hn : ¬ DirectMapped.Has g.l2Idx g.l2Tag v.slots x) (hS' : v'.slots = v.slots)
    (hD : dramView v.regs d = d) (hD' : dramView v'.regs d' = Function.update d x data)
    (hC : Agrees g v d) :
    base g v' d' = (fun B => Function.update B x data) (base g v d) ∧ Agrees g v' d' := by
  rw [Agrees, hD] at hC
  refine ⟨?_, ?_⟩
  · rw [base, base, hS', hD', hD, DirectMapped.value_store hn]
  · rw [Agrees, hS', hD']
    exact hC.store hn data

/-- The reply to a write-back: it was already part of the view. -/
theorem base_drained (hS' : v'.slots = v.slots) (hD' : dramView v'.regs d' = dramView v.regs d)
    (hC : Agrees g v d) : base g v' d' = id (base g v d) ∧ Agrees g v' d' := by
  refine ⟨?_, ?_⟩
  · rw [base, base, hS', hD', id]
  · rw [Agrees, hS', hD']
    exact hC

end Moves

/-- Outside `IDLE` and `CHECK_VALID_AND_TAG` nothing is accepted. -/
theorem access_apply_other (h1 : v.regs.state ≠ .idle) (h2 : v.regs.state ≠ .checkValidAndTag) :
    (access g v i d).apply M = M := by
  unfold access
  cases hs : v.regs.state <;> first | rfl | exact absurd hs h1 | exact absurd hs h2

/-- Without a probe acknowledge nothing arrives in `CHECK_VALID_AND_TAG`. -/
theorem access_apply_check (hs : v.regs.state = .checkValidAndTag)
    (hp : needsProbe v.regs v.cur = false ∨ (v.regs.probeReq && i.probeAck) = false) :
    (access g v i d).apply M = M := by
  have h : (needsProbe v.regs v.cur && v.regs.probeReq && i.probeAck && i.probeDirty &&
      !discards v.regs) = false := by
    rcases hp with hp | hp
    · simp [hp]
    · rw [Bool.and_assoc (needsProbe v.regs v.cur), hp]
      simp
  simp [access, hs, h, Access.apply]

theorem needsProbe_of_uncache {r : Regs} {w : L2Entry} (h : r.isUncache = true) :
    needsProbe r w = false := by
  simp [needsProbe, h]

theorem not_has_of_miss (hl : Lookup g v.regs) (hS : v.slots = L2Entry.slot ∘ v.arr)
    (hh : hit v.regs v.cur = false) :
    ¬ DirectMapped.Has g.l2Idx g.l2Tag v.slots v.regs.saveaddr := by
  rw [hS, DirectMapped.Has, ← hl.1, ← hl.2]
  intro h
  have hv : v.cur.valid = true := h.1
  have ht : v.cur.tag = v.regs.tag := h.2
  simp [hit, hv, ht] at hh

/-- A line that misses has DRAM's value. -/
theorem base_of_miss (hl : Lookup g v.regs) (hs : v.regs.state = .checkValidAndTag)
    (hh : hit v.regs v.cur = false) : base g v d v.regs.saveaddr = d v.regs.saveaddr := by
  have hn : ¬ DirectMapped.Has g.l2Idx g.l2Tag v.slots v.regs.saveaddr := by
    rw [has_iff_hit hl hs, hh]
    simp
  rw [base, DirectMapped.value_of_not_has hn]
  simp [dramView, hs]

/-- The cached operations that reach the hit and miss arms are fills and writebacks. -/
theorem fillOp_cases {op : MemOp} (h : OpOk false op) (hf : fillOp op = true) :
    op = .lw ∨ op = .sw := by
  rw [OpOk, if_neg (by simp)] at h
  rcases h with h | h | h | h | h | h <;> simp_all [fillOp]

/-- What `Mode` says of a dirty probe in `CHECK_VALID_AND_TAG`. -/
def ProbeDirtyOk (r : Regs) (w : L2Entry) : Prop :=
  r.probeDirty = true → w.valid = true ∧ r.probed = true ∧ r.isUncache = false ∧
    (fillOp r.opcode = true ∨ hit r w = true)

theorem probeDirty_of_uncache {r : Regs} {w : L2Entry} (hu : r.isUncache = true)
    (hp : ProbeDirtyOk r w) : r.probeDirty = false := by
  cases h : r.probeDirty
  · rfl
  · exact absurd (hp h).2.2.1 (by simp [hu])

theorem probeDirty_of_unprobed {r : Regs} {w : L2Entry} (hu : r.probed = false)
    (hp : ProbeDirtyOk r w) : r.probeDirty = false := by
  cases h : r.probeDirty
  · rfl
  · exact absurd (hp h).2.1 (by simp [hu])

theorem probeDirty_of_miss {r : Regs} {w : L2Entry} (ho : fillOp r.opcode = false)
    (hh : hit r w = false) (hp : ProbeDirtyOk r w) : r.probeDirty = false := by
  cases h : r.probeDirty
  · rfl
  · rcases (hp h).2.2.2 with h' | h'
    · exact absurd h' (by simp [ho])
    · exact absurd h' (by simp [hh])

/-- The operation that arrives with a dirty probe acknowledge. -/
theorem access_probe (hs : v.regs.state = .checkValidAndTag)
    (hp : needsProbe v.regs v.cur = true) (hr : v.regs.probeReq = true)
    (ha : i.probeAck = true) (hb : i.probeDirty = true) :
    (access g v i d).apply M =
      if discards v.regs then M
      else Function.update M (g.l2Line v.cur.tag v.regs.idx) i.probeData := by
  cases hdis : discards v.regs <;>
    simp [access, hs, hp, hr, ha, hb, hdis, Access.apply]

/-- A dirty copy that comes back from the L1D commutes with the operation in service,
unless that operation discards the line. -/
theorem inService_probe (hx : v.regs.idx < g.l2Lines) (hl : Lookup g v.regs)
    (hs : v.regs.state = .checkValidAndTag) (hop : OpOk v.regs.isUncache v.regs.opcode)
    (hp : needsProbe v.regs v.cur = true) (B : Mem) {data : Line} :
    (if discards v.regs then inService v.regs B d
      else Function.update (inService v.regs B d) (g.l2Line v.cur.tag v.regs.idx) data) =
      inService v.regs (Function.update B (g.l2Line v.cur.tag v.regs.idx) data) d := by
  obtain ⟨hnp, hu, hv, -, hfh⟩ := needsProbe_cases hp
  rw [OpOk, hu] at hop
  rcases hop with ho | ho | ho | ho | ho | ho
  · simp [discards, inService, hs, hu, ho]
  · have hmiss : hit v.regs v.cur = false := by
      have h : hit v.regs v.cur = false ∧ v.cur.pres.pd = true := by
        simpa [needsProbe, hnp, hu, isAlias, ho, fillOp, hv] using hp
      exact h.1
    have hne := l2Line_of_miss hx hl hv hmiss
    simp [discards, inService, hs, hu, ho, Function.update_comm hne]
  · simp [needsProbe, isAlias, ho, fillOp] at hp
  · simp [discards, inService, hs, hu, ho]
  · have hh : hit v.regs v.cur = true := by simpa [ho, fillOp] using hfh
    simp [discards, inService, hs, hu, ho, l2Line_of_hit hl hh]
  · have hh : hit v.regs v.cur = true := by simpa [ho, fillOp] using hfh
    cases hw : v.regs.snpWbinv <;>
      simp [discards, inService, hs, hu, ho, hw, l2Line_of_hit hl hh]

/-- One step of the reset walk clears one more index. -/
theorem init_cleared (hx : v.regs.idx < g.l2Lines) (hlast : v.regs.idx ≠ g.l2Lines - 1)
    (hj : ∀ j, 0 < j → j ≤ v.regs.idx → (v.arr j).valid = false) :
    ∀ j, 0 < j → j ≤ g.l2Succ v.regs.idx →
      (Function.update v.arr (g.l2Succ v.regs.idx)
        (clearEntry (v.arr (g.l2Succ v.regs.idx))) j).valid = false := by
  have hsucc : g.l2Succ v.regs.idx = v.regs.idx + 1 := Nat.mod_eq_of_lt (by omega)
  intro j h0 hle
  rw [hsucc] at hle ⊢
  by_cases he : j = v.regs.idx + 1
  · rw [he, Function.update_self]
    rfl
  · rw [Function.update_of_ne he]
    exact hj j h0 (by omega)

/-- After the last step of the reset walk no line is resident. -/
theorem init_empty (hlast : v.regs.idx = g.l2Lines - 1)
    (hj : ∀ j, 0 < j → j ≤ v.regs.idx → (v.arr j).valid = false) (x : LineAddr) :
    ¬ DirectMapped.Has g.l2Idx g.l2Tag
      (L2Entry.slot ∘ Function.update v.arr (g.l2Succ v.regs.idx)
        (clearEntry (v.arr (g.l2Succ v.regs.idx)))) x := by
  have hsucc : g.l2Succ v.regs.idx = 0 := by
    have hpos := g.l2Lines_pos
    rw [Geometry.l2Succ, hlast, Nat.sub_add_cancel hpos, Nat.mod_self]
  rw [hsucc, Function.comp_update]
  by_cases h0 : g.l2Idx x = 0
  · exact DirectMapped.not_has_update_invalid rfl h0
  · intro h
    have hlt := g.l2Idx_lt x
    have hval : (v.arr (g.l2Idx x)).valid = true := by
      simpa [Function.update_of_ne h0, L2Entry.slot] using h.1
    rw [hj _ (by omega) (by omega)] at hval
    exact absurd hval (by simp)

theorem memInv_step (h : Step g v i v') (hc : Ctl g v) (hm : MemInv g M d v)
    (hq : i.reqValid = true → ReqOk i.req)
    (hd : memWaiting v.regs.state = true → i.memRspValid = true → v.regs.memOpcode = .lw →
      i.memRspLoadData = d v.regs.addr) :
    MemInv g ((access g v i d).apply M) (dramNext v.regs i d) v' := by
  obtain ⟨hx, hmode⟩ := hc
  have hquiet : memWaiting v.regs.state = false → dramNext v.regs i d = d := by
    intro h
    simp [dramNext, h]
  cases h
  case idle hs hf hn hv =>
    rw [hquiet (by rw [hs]; rfl)]
    have ha : access g v i d = .load 0 := by simp [access, hs, hf, hn, hv]
    rw [ha]
    refine hm.of_same (by simp [hs]) (by simp [hs]) (by simp [slots, hs])
      (by simp [dramView, hs]) fun B hB _ => ?_
    simpa [inService, hs, Access.apply] using hB
  case idleFlushSkip hs hf hk | idleFlush hs hf hk =>
    rw [hquiet (by rw [hs]; rfl)]
    have ha : access g v i d = .load 0 := by simp [access, hs, hf]
    rw [ha]
    refine hm.of_same (by simp [hs]) (by simp [hs]) (by simp [slots, hs])
      (by simp [dramView, hs]) fun B hB _ => ?_
    simpa [inService, hs, Access.apply] using hB
  case idleSnoop hs hf hn =>
    rw [hquiet (by rw [hs]; rfl)]
    have hu : v.regs.isUncache = false := by simpa [Mode, hs] using hmode
    have ha : access g v i d = .ofSnoop i d := by simp [access, hs, hf, hn]
    rw [ha]
    refine hm.of_same (by simp [hs]) (by simp) (by simp [slots, hs])
      (by simp [dramView, hs]) fun B hB _ => ?_
    have hB' : B = M := by simpa [inService, hs] using hB
    subst hB'
    cases hw : i.snoopReqWbinv <;> simp [inService, hu, Access.ofSnoop, hw, Access.apply]
  case idleReq hs hf hn hv hca =>
    rw [hquiet (by rw [hs]; rfl)]
    have ha : access g v i d = .ofReq i d := by simp [access, hs, hf, hn, hv]
    rw [ha]
    refine hm.of_same (by simp [hs]) (by simp) (by simp [slots, hs])
      (by simp [dramView, hs]) fun B hB _ => ?_
    have hB' : B = M := by simpa [inService, hs] using hB
    subst hB'
    have hc1 : i.req.cacheable = true := by
      simp only [l2Cacheable, Bool.and_eq_true] at hca
      exact hca.1
    have hop := hq hv
    rw [ReqOk, if_pos hc1] at hop
    rcases hop with ho | ho | ho | ho | ho <;>
      simp [inService, ho, Access.ofReq, Access.apply, hca]
  case idleUncached hs hf hn hv hca =>
    rw [hquiet (by rw [hs]; rfl)]
    have ha : access g v i d = .ofReq i d := by simp [access, hs, hf, hn, hv]
    rw [ha]
    refine hm.of_same (by simp [hs]) (by simp) (by simp [slots, hs])
      (by simp [dramView, hs]) fun B hB _ => ?_
    have hB' : B = M := by simpa [inService, hs] using hB
    subst hB'
    have hop : i.req.opcode = .lw ∨ i.req.opcode = .sw := by
      have hop := hq hv
      rw [ReqOk] at hop
      split at hop
      · next hc1 =>
          have hn24 : ¬ 24 ≤ i.req.opcode.code := by
            intro h24
            simp [l2Cacheable, hc1, h24] at hca
          rcases hop with ho | ho | ho | ho | ho <;> simp [ho, MemOp.code] at hn24 ⊢
      · exact hop
    rcases hop with ho | ho <;> simp [inService, ho, Access.ofReq, Access.apply, hca]
  case waitForRam hs =>
    rw [hquiet (by rw [hs]; rfl), access_apply_other (by simp [hs]) (by simp [hs])]
    have hpd : v.regs.probeDirty = false := by
      rw [Mode, hs] at hmode
      exact hmode.2.2.1
    refine hm.of_same (by simp [hs]) (by simp) (by simp [slots, hs, hpd])
      (by simp [dramView, hs]) fun B hB _ => ?_
    rw [inService, hs] at hB
    exact hB
  case probeWait hs hp ha =>
    rw [hquiet (by rw [hs]; rfl), access_apply_check hs (.inr ha)]
    exact hm.of_same (by simp [hs]) (by simp [hs]) rfl rfl fun B hB _ => hB
  case hitOther hs hu hp ho hl hw hh =>
    rw [Mode, hs] at hmode
    obtain ⟨-, hop, -⟩ := hmode
    rw [OpOk, hu] at hop
    rcases hop with h | h | h | h | h | h <;> simp_all [fillOp]
  case memWait hs hr =>
    have hdr : dramNext v.regs i d = d := by simp [dramNext, hr]
    have hne : ∀ t, memWaiting t = false → v.regs.state ≠ t := by
      intro t ht he
      rw [he, ht] at hs
      exact absurd hs (by simp)
    rw [hdr, access_apply_other (hne _ rfl) (hne _ rfl)]
    exact hm.of_same (hne _ rfl) (hne _ rfl) rfl rfl fun B hB _ => hB
  case storeTurnaround hs =>
    rw [hquiet (by rw [hs]; rfl), access_apply_other (by simp [hs]) (by simp [hs])]
    refine hm.of_same (by simp [hs]) (by simp) (by simp [slots, hs, cur])
      (by simp [dramView, hs]) fun B hB _ => ?_
    rw [inService, hs] at hB
    exact hB
  case waitCleanReload hs =>
    rw [hquiet (by rw [hs]; rfl), access_apply_other (by simp [hs]) (by simp [hs])]
    refine hm.of_same (by simp [hs]) (by simp) (by simp [slots, hs])
      (by simp [dramView, hs]) fun B hB _ => ?_
    rw [Mode, hs] at hmode
    obtain ⟨⟨-, hu, -, ho⟩, -⟩ := hmode
    rcases ho with ho | ho <;> simpa [inService, hs, hu, ho] using hB
  case waitStoreIdle hs | flushWait hs =>
    rw [hquiet (by rw [hs]; rfl), access_apply_other (by simp [hs]) (by simp [hs])]
    refine hm.of_same (by simp [hs]) (by simp) (by simp [slots, hs])
      (by simp [dramView, hs]) fun B hB _ => ?_
    simpa [inService, hs] using hB
  case turnaroundInvl hs ho | turnaroundSnoop hs ho =>
    rw [hquiet (by rw [hs]; rfl), access_apply_other (by simp [hs]) (by simp [hs])]
    refine hm.of_same (by simp [hs]) (by simp) (by simp [slots, hs])
      (by simp [dramView, hs]) fun B hB _ => ?_
    simpa [inService, hs, ho] using hB
  case turnaroundIssue hs hi hn =>
    rw [hquiet (by rw [hs]; rfl), access_apply_other (by simp [hs]) (by simp [hs])]
    rw [Mode, hs] at hmode
    obtain ⟨-, -, -, ho⟩ := hmode
    have ho' : v.regs.opcode = .lw ∨ v.regs.opcode = .sw := by
      rcases ho with h | h | h | h
      · exact .inl h
      · exact .inr h
      · exact absurd h hi
      · exact absurd h hn
    rcases ho' with ho' | ho'
    · refine hm.of_same (by simp [hs]) (by simp [uncachedState, ho'])
        (by simp [slots, hs, uncachedState, ho']) (by simp [dramView, hs, uncachedState, ho'])
        fun B hB _ => ?_
      simpa [inService, hs, uncachedState, ho'] using hB
    · refine hm.of_same (by simp [hs]) (by simp [uncachedState, ho'])
        (by simp [slots, hs, uncachedState, ho']) (by simp [dramView, hs, uncachedState, ho'])
        fun B hB _ => ?_
      simpa [inService, hs, uncachedState, ho'] using hB
  case uncachedWriteBack hs hu hh hdirty =>
    rw [hquiet (by rw [hs]; rfl), access_apply_check hs (.inl (needsProbe_of_uncache hu))]
    rw [Mode, hs] at hmode
    obtain ⟨hl, hop, hpd, -⟩ := hmode
    have hpd' := probeDirty_of_uncache hu hpd
    have hv : v.cur.valid = true := ((Bool.and_eq_true _ _).mp hh).1
    refine hm.of_base (by simp [hs]) (by simp)
      (base_writeBack hx (by simp [dramView, hs]) (by rw [slots_check_cur hs]; exact hv)
        (slots_check_setCur hs _) rfl
        (by rw [slots_check_cur hs]; simp [dramView, newest, hpd'])) fun B hM _ => ?_
    rw [hM]
    simp [inService, hs, hu]
    rfl
  case uncachedHit hs hu hh hdirty =>
    rw [hquiet (by rw [hs]; rfl), access_apply_check hs (.inl (needsProbe_of_uncache hu))]
    rw [Mode, hs] at hmode
    obtain ⟨hl, hop, hpd, -⟩ := hmode
    have hpd' := probeDirty_of_uncache hu hpd
    have hclean : (v.slots v.regs.idx).valid = true → (v.slots v.regs.idx).dirty = false := by
      intro _
      rw [slots_check_cur hs]
      simp [hdirty, hpd']
    rw [OpOk, if_pos hu] at hop
    rcases hop with ho | ho
    · refine hm.of_base (by simp [hs]) (by simp [uncachedState, ho])
        (base_forget hclean
          (e := (clearEntry v.cur).slot) (by simpa [slots, uncachedState, ho] using slots_check_setCur hs _) rfl
          (by simp [dramView, hs, uncachedState, ho])) fun B hM _ => ?_
      rw [hM]
      simp [inService, hs, hu, uncachedState, ho]
    · refine hm.of_base (by simp [hs]) (by simp [uncachedState, ho])
        (base_forget hclean
          (e := (clearEntry v.cur).slot) (by simpa [slots, uncachedState, ho] using slots_check_setCur hs _) rfl
          (by simp [dramView, hs, uncachedState, ho])) fun B hM _ => ?_
      rw [hM]
      simp [inService, hs, hu, uncachedState, ho]
  case uncachedMiss hs hu hh =>
    rw [hquiet (by rw [hs]; rfl), access_apply_check hs (.inl (needsProbe_of_uncache hu))]
    rw [Mode, hs] at hmode
    obtain ⟨hl, hop, hpd, -⟩ := hmode
    have hpd' := probeDirty_of_uncache hu hpd
    rw [OpOk, if_pos hu] at hop
    rcases hop with ho | ho <;>
    · refine hm.of_same (by simp [hs]) (by simp [uncachedState, ho])
        (by rw [slots_check_clean hs hpd']; simp [slots, uncachedState, ho])
        (by simp [dramView, hs, uncachedState, ho]) fun B hB _ => ?_
      simpa [inService, hs, hu, uncachedState, ho] using hB
  case dropWriteBack hs hu hp ho hh hdirty =>
    rw [hquiet (by rw [hs]; rfl), access_apply_check hs (.inl hp)]
    have hv : v.cur.valid = true := ((Bool.and_eq_true _ _).mp hh).1
    refine hm.of_base (by simp [hs]) (by simp)
      (base_writeBack hx (by simp [dramView, hs]) (by rw [slots_check_cur hs]; exact hv)
        (slots_check_setCur hs _) rfl
        (by rw [slots_check_cur hs]; simp [dramView])) fun B hM _ => ?_
    rw [hM]
    rcases ho with ho | ⟨ho, hw⟩
    · simp [inService, hs, hu, ho]
    · simp [inService, hs, hu, ho, hw]
  case invlDone hs hu hp ho hdirty =>
    rw [hquiet (by rw [hs]; rfl), access_apply_check hs (.inl hp)]
    rw [Mode, hs] at hmode
    obtain ⟨hl, -, hpd, -⟩ := hmode
    by_cases hh : hit v.regs v.cur = true
    · rw [if_pos hh]
      have hcl : (v.cur.dirty || v.regs.probeDirty) = false := by
        rcases hdirty with h | h
        · exact h
        · exact absurd hh (by simp [h])
      refine hm.of_base (by simp [hs]) (by simp)
        (base_forget (fun _ => by rw [slots_check_cur hs]; exact hcl)
          (slots_check_setCur hs _) rfl (by simp [dramView, hs])) fun B hM _ => ?_
      rw [hM]
      simp [inService, hs, hu, ho]
    · rw [if_neg hh]
      have hpd' := probeDirty_of_miss (by rw [ho]; rfl) (by simpa using hh) hpd
      refine hm.of_same (by simp [hs]) (by simp) (by exact (slots_check_clean hs hpd').symm)
        (by simp [dramView, hs]) fun B hB _ => ?_
      simpa [inService, hs, hu, ho] using hB
  case pgdrop hs hu hp ho =>
    rw [hquiet (by rw [hs]; rfl), access_apply_check hs (.inl hp)]
    rw [Mode, hs] at hmode
    obtain ⟨hl, -, hpd, -⟩ := hmode
    by_cases hh : hit v.regs v.cur = true
    · rw [if_pos hh]
      refine hm.of_base (f := fun B => Function.update B v.regs.saveaddr (d v.regs.saveaddr))
        (by simp [hs]) (by simp)
        (base_drop hl ((has_iff_hit hl hs).mpr hh) (slots_check_setCur hs _) rfl
          (by simp [dramView, hs]) (by simp [dramView])) fun B hM _ => ?_
      rw [hM]
      simp [inService, hs, hu, ho]
    · rw [if_neg hh]
      have hpd' := probeDirty_of_miss (by rw [ho]; rfl) (by simpa using hh) hpd
      refine hm.of_same (by simp [hs]) (by simp) (by exact (slots_check_clean hs hpd').symm)
        (by simp [dramView, hs]) fun B hB hbase => ?_
      have hBx : B v.regs.saveaddr = d v.regs.saveaddr := by
        rw [hbase, base_of_miss hl hs (by simpa using hh)]
      simpa [inService, hs, hu, ho, ← hBx] using hB
  case snoopDone hs hu hp ho hdirty =>
    rw [hquiet (by rw [hs]; rfl), access_apply_check hs (.inl hp)]
    rw [Mode, hs] at hmode
    obtain ⟨hl, -, hpd, -⟩ := hmode
    by_cases hh : hit v.regs v.cur = true
    · rw [if_pos hh]
      by_cases hw : v.regs.snpWbinv = true
      · have hcl : (v.cur.dirty || v.regs.probeDirty) = false := by
          rcases hdirty with h | h | h
          · exact absurd hw (by simp [h])
          · exact h
          · exact absurd hh (by simp [h])
        refine hm.of_base (by simp [hs]) (by simp)
          (base_forget (fun _ => by rw [slots_check_cur hs]; exact hcl)
            (slots_check_setCur hs _) rfl (by simp [dramView, hs])) fun B hM _ => ?_
        rw [hM]
        simp [inService, hs, hu, ho, hw]
      · refine hm.of_base (f := fun B => Function.update B v.regs.saveaddr (d v.regs.saveaddr))
          (by simp [hs]) (by simp)
          (base_drop hl ((has_iff_hit hl hs).mpr hh) (slots_check_setCur hs _) rfl
            (by simp [dramView, hs]) (by simp [dramView])) fun B hM _ => ?_
        rw [hM]
        simp [inService, hs, hu, ho, hw]
    · rw [if_neg hh]
      have hpd' := probeDirty_of_miss (by rw [ho]; rfl) (by simpa using hh) hpd
      refine hm.of_same (by simp [hs]) (by simp) (by exact (slots_check_clean hs hpd').symm)
        (by simp [dramView, hs]) fun B hB hbase => ?_
      have hBx : B v.regs.saveaddr = d v.regs.saveaddr := by
        rw [hbase, base_of_miss hl hs (by simpa using hh)]
      cases hw : v.regs.snpWbinv
      · simpa [inService, hs, hu, ho, hw, ← hBx] using hB
      · simpa [inService, hs, hu, ho, hw] using hB
  case wb hs hu hp ho =>
    rw [hquiet (by rw [hs]; rfl), access_apply_check hs (.inl hp)]
    rw [Mode, hs] at hmode
    obtain ⟨hl, -, hpd, -⟩ := hmode
    by_cases hh : hit v.regs v.cur = true
    · rw [if_pos hh]
      refine hm.of_base (f := fun B => Function.update B v.regs.saveaddr (d v.regs.saveaddr))
        (by simp [hs]) (by simp)
        (base_drop hl ((has_iff_hit hl hs).mpr hh) (slots_check_setCur hs _) rfl
          (by simp [dramView, hs]) (by simp [dramView])) fun B hM _ => ?_
      rw [hM]
      simp [inService, hs, hu, ho]
    · rw [if_neg hh]
      have hpd' := probeDirty_of_miss (by rw [ho]; rfl) (by simpa using hh) hpd
      refine hm.of_same (by simp [hs]) (by simp) (by exact (slots_check_clean hs hpd').symm)
        (by simp [dramView, hs]) fun B hB hbase => ?_
      simpa [inService, hs, hu, ho] using hB
  case hitLw hs hu hp ho hh =>
    rw [hquiet (by rw [hs]; rfl), access_apply_check hs (.inl hp)]
    refine hm.of_same (by simp [hs]) (by simp) ?_ (by simp [dramView, hs]) fun B hB hbase => ?_
    · rw [slots_check hs]
      exact slot_comp_setCur _
    · simpa [inService, hs, hu, ho] using hB
  case hitSw hs hu hp ho hh =>
    rw [hquiet (by rw [hs]; rfl), access_apply_check hs (.inl hp)]
    rw [Mode, hs] at hmode
    obtain ⟨hl, -, hpd, -⟩ := hmode
    have hv : v.cur.valid = true := ((Bool.and_eq_true _ _).mp hh).1
    refine hm.of_base (f := fun B => Function.update B v.regs.saveaddr v.regs.storeData)
      (by simp [hs]) (by simp)
      (base_write v.regs.saveaddr v.regs.storeData hl.1 ((has_iff_hit hl hs).mpr hh)
        (slots_check_setCur hs _) hv (by rw [slots_check_cur hs]; rfl) rfl rfl
        (by simp [dramView, hs])) fun B hM _ => ?_
    rw [hM]
    simp [inService, hs, hu, ho]
  case evict hs hu hp ho hh hdirty =>
    rw [hquiet (by rw [hs]; rfl), access_apply_check hs (.inl hp)]
    rw [Mode, hs] at hmode
    obtain ⟨hl, hop, hpd, -⟩ := hmode
    have hv : v.cur.valid = true := by
      rcases (Bool.or_eq_true _ _).mp hdirty with h | h
      · exact ((Bool.and_eq_true _ _).mp h).1
      · exact (hpd h).1
    refine hm.of_base (by simp [hs]) (by simp)
      (base_writeBack hx (by simp [dramView, hs]) (by rw [slots_check_cur hs]; exact hv)
        (slots_check_invalid hs) rfl
        (by rw [slots_check_cur hs]; simp [dramView])) fun B hM _ => ?_
    rw [hM]
    rcases fillOp_cases (by simpa [hu] using hop) ho with ho' | ho' <;>
      simp [inService, hs, hu, ho']
  case reload hs hu hp ho hh hdirty =>
    rw [hquiet (by rw [hs]; rfl), access_apply_check hs (.inl hp)]
    rw [Mode, hs] at hmode
    obtain ⟨hl, hop, hpd, -⟩ := hmode
    obtain ⟨hwb, hpd'⟩ := Bool.or_eq_false_iff.mp hdirty
    have hclean : (v.slots v.regs.idx).valid = true → (v.slots v.regs.idx).dirty = false := by
      rw [slots_check_cur hs]
      intro hv
      simp only at hv
      simpa [needWb, hv, hpd'] using hwb
    refine hm.of_base (by simp [hs]) (by simp)
      (base_forget hclean (slots_check_invalid hs) rfl (by simp [dramView, hs])) fun B hM _ => ?_
    rw [hM]
    rcases fillOp_cases (by simpa [hu] using hop) ho with ho' | ho' <;>
      simp [inService, hs, hu, ho']
  case probeAcked hs hp hr ha =>
    rw [hquiet (by rw [hs]; rfl)]
    rw [Mode, hs] at hmode
    obtain ⟨hl, hop, hpd, -⟩ := hmode
    obtain ⟨hnp, hu, hv, -, hfh⟩ := needsProbe_cases hp
    have hpd' := probeDirty_of_unprobed hnp hpd
    cases hb : i.probeDirty
    · have hacc : (access g v i d).apply M = M := by
        simp [access, hs, hb, Access.apply]
      rw [hacc]
      refine hm.of_same (by simp [hs]) (by simp [hs]) ?_ (by simp [dramView, hs])
        fun B hB _ => hB
      rw [slots_check_clean hs hpd']
      simp [slots, hs]
    · have hix := g.l2Idx_l2Line v.cur.tag hx
      have hhas : DirectMapped.Has g.l2Idx g.l2Tag v.slots (g.l2Line v.cur.tag v.regs.idx) := by
        rw [DirectMapped.Has, hix, g.l2Tag_l2Line _ hx, slots_check_cur hs]
        exact ⟨hv, rfl⟩
      refine hm.of_base
        (f := fun B => Function.update B (g.l2Line v.cur.tag v.regs.idx) i.probeData)
        (by simp [hs]) (by simp [hs])
        (base_write (e := { v.cur.slot with dirty := true, data := i.probeData })
          (g.l2Line v.cur.tag v.regs.idx) i.probeData hix.symm hhas ?_ hv ?_ rfl rfl
          (by simp [dramView, hs])) fun B hM _ => ?_
      · rw [slots_check_clean hs hpd']
        simp [slots, hs, cur]
      · rw [slots_check_cur hs]
        rfl
      · rw [access_probe hs hp hr ha hb, hM]
        exact inService_probe hx hl hs hop hp B
  case dirtyStoreDone hs hr =>
    rw [access_apply_other (by simp [hs]) (by simp [hs])]
    rw [Mode, hs] at hmode
    obtain ⟨hf, hop, hmask, -⟩ := hmode
    have hdr : dramNext v.regs i d = dramView v.regs d := by
      simp [dramNext, dramView, hs, memWaiting, hr, hop, hmask]
    refine hm.of_base (by simp [hs]) (by simp)
      (base_drained (by simp [slots, hs, cur]) (by rw [hdr]; simp [dramView])) fun B hM _ => ?_
    rw [hM]
    simp [inService, hs]
    rfl
  case flushStoreNext hs hr hlast | flushStoreLast hs hr hlast =>
    rw [access_apply_other (by simp [hs]) (by simp [hs])]
    rw [Mode, hs] at hmode
    obtain ⟨-, hmask, hop, -⟩ := hmode
    have hdr : dramNext v.regs i d = dramView v.regs d := by
      simp [dramNext, dramView, hs, memWaiting, hr, hop, hmask]
    refine hm.of_base (by simp [hs]) (by simp)
      (base_drained (by simp [slots, hs]) (by rw [hdr]; simp [dramView])) fun B hM _ => ?_
    rw [hM]
    simp [inService, hs]
  case uncacheWbDrainDone hs hr =>
    rw [access_apply_other (by simp [hs]) (by simp [hs])]
    rw [Mode, hs] at hmode
    obtain ⟨-, -, hop, hmask, -⟩ := hmode
    have hdr : dramNext v.regs i d = dramView v.regs d := by
      simp [dramNext, dramView, hs, memWaiting, hr, hop, hmask]
    refine hm.of_base (by simp [hs]) (by simp)
      (base_drained (by simp [slots, hs]) (by rw [hdr]; simp [dramView])) fun B hM _ => ?_
    rw [hM]
    simp [inService, hs]
    rfl
  case cleanReloadDone hs hr =>
    rw [access_apply_other (by simp [hs]) (by simp [hs])]
    rw [Mode, hs] at hmode
    obtain ⟨⟨hl, -, -, -⟩, hop, haddr⟩ := hmode
    have hdr : dramNext v.regs i d = d := by simp [dramNext, hop]
    rw [hdr]
    have hdata : i.memRspLoadData = d v.regs.saveaddr := by
      rw [← haddr]
      exact hd (by rw [hs]; rfl) hr hop
    refine hm.of_base (f := id) (by simp [hs]) (by simp) ?_ fun B hM _ => ?_
    · exact base_install (e := ⟨true, false, v.regs.tag, i.memRspLoadData⟩) hl.1
        (by simp [slots, hs]) (by simp [slots, hs, slot_comp_setCur, L2Entry.slot]) hl.2 hdata
        (by simp [dramView, hs]) (by simp [dramView])
    · rw [hM]
      simp [inService, hs]
      rfl
  case flushTriageWb hs hdirty =>
    rw [hquiet (by rw [hs]; rfl), access_apply_other (by simp [hs]) (by simp [hs])]
    have hsl : v.slots = L2Entry.slot ∘ v.arr := by simp [slots, hs]
    have hv := ((Bool.and_eq_true _ _).mp hdirty).1
    refine hm.of_base (by simp [hs]) (by simp)
      (base_writeBack hx (by simp [dramView, hs]) (by rw [hsl]; exact hv)
        (by rw [hsl]; exact slot_comp_setCur _) rfl
        (by rw [hsl]; simp [dramView]; rfl)) fun B hM _ => ?_
    rw [hM]
    simp [inService, hs]
  case flushTriageNext hs hdirty hlast | flushTriageLast hs hdirty hlast =>
    rw [hquiet (by rw [hs]; rfl), access_apply_other (by simp [hs]) (by simp [hs])]
    have hsl : v.slots = L2Entry.slot ∘ v.arr := by simp [slots, hs]
    have hclean : (v.slots v.regs.idx).valid = true → (v.slots v.regs.idx).dirty = false := by
      intro hv
      rw [hsl] at hv ⊢
      have hv' : v.cur.valid = true := hv
      have hdirty' : v.cur.dirty = false := by simpa [needWb, hv'] using hdirty
      exact hdirty'
    refine hm.of_base (by simp [hs]) (by simp)
      (base_forget hclean (by rw [hsl]; exact slot_comp_setCur _) rfl
        (by simp [dramView, hs])) fun B hM _ => ?_
    rw [hM]
    simp [inService, hs]
  case uncacheStoreDone hs hr =>
    rw [access_apply_other (by simp [hs]) (by simp [hs])]
    rw [Mode, hs] at hmode
    obtain ⟨hl, -, hop, haddr, hmiss, -⟩ := hmode
    have hdr : dramNext v.regs i d = Function.update d v.regs.saveaddr
        (Line.merge v.regs.storeMask v.regs.memReqStoreData (d v.regs.saveaddr)) := by
      simp [dramNext, hs, memWaiting, hr, hop, haddr]
    have hn := not_has_of_miss hl (by simp [slots, hs]) hmiss
    refine hm.of_base
      (f := fun B => Function.update B v.regs.saveaddr
        (Line.merge v.regs.storeMask v.regs.memReqStoreData (d v.regs.saveaddr)))
      (by simp [hs]) (by simp)
      (base_store hn (by simp [slots, hs]) (by simp [dramView, hs])
        (by rw [hdr]; simp [dramView])) fun B hM hbase => ?_
    have hBx : B v.regs.saveaddr = d v.regs.saveaddr := by
      rw [hbase, base, DirectMapped.value_of_not_has hn]
      simp [dramView, hs]
    rw [hM]
    simp [inService, hs, hBx]
  case uncacheLoadDone hs hr =>
    rw [access_apply_other (by simp [hs]) (by simp [hs])]
    rw [Mode, hs] at hmode
    obtain ⟨hl, -, hop, haddr, hmiss, -⟩ := hmode
    have hdr : dramNext v.regs i d = d := by simp [dramNext, hop]
    rw [hdr]
    refine hm.of_same (by simp [hs]) (by simp) (by simp [slots, hs])
      (by simp [dramView, hs]) fun B hB _ => ?_
    simpa [inService, hs] using hB
  case init hs hlast =>
    rw [hquiet (by rw [hs]; rfl), access_apply_other (by simp [hs]) (by simp [hs])]
    rw [MemInv, if_pos hs] at hm
    obtain ⟨hM, hj⟩ := hm
    rw [MemInv, if_pos (by simpa using hs)]
    refine ⟨hM, fun j h0 hle => ?_⟩
    exact init_cleared hx hlast hj j h0 hle
  case initLast hs hlast =>
    rw [hquiet (by rw [hs]; rfl), access_apply_other (by simp [hs]) (by simp [hs])]
    rw [MemInv, if_pos hs] at hm
    obtain ⟨hM, hj⟩ := hm
    have hn := init_empty hlast hj
    rw [memInv_iff (by simp)]
    refine ⟨?_, fun x hx' _ => absurd hx' (hn x)⟩
    funext x
    have hb : DirectMapped.value g.l2Idx g.l2Tag (L2Entry.slot ∘ Function.update v.arr (g.l2Succ v.regs.idx)
            (clearEntry (v.arr (g.l2Succ v.regs.idx)))) d x = d x :=
      DirectMapped.value_of_not_has (hn x)
    rw [hM]
    exact hb.symm

/-- A load is answered with the value of its line. -/
theorem rspData_step (h : Step g v i v') (hc : Ctl g v) (hm : MemInv g M d v)
    (hd : memWaiting v.regs.state = true → i.memRspValid = true → v.regs.memOpcode = .lw →
      i.memRspLoadData = d v.regs.addr)
    (hr : v'.regs.rspValid = true) (ho : v'.regs.opcode = .lw) :
    v'.regs.rspData = (access g v i d).apply M v'.regs.saveaddr := by
  obtain ⟨hx, hmode⟩ := hc
  cases h
  case hitLw hs hu hp ho' hh =>
    rw [access_apply_check hs (.inl hp)]
    rw [Mode, hs] at hmode
    have hl := hmode.1
    have hM := ((memInv_iff (by simp [hs])).mp hm).1
    have hhas := (has_iff_hit hl hs).mpr hh
    have hslot := slots_check_cur hs
    rw [hl.1] at hslot
    have hval : base g v d v.regs.saveaddr = newest v.regs v.cur := by
      rw [base, DirectMapped.value, if_pos hhas, hslot]
    rw [hM]
    simp [inService, hs, hu, ho', hval]
  case uncacheLoadDone hs hmr =>
    rw [access_apply_other (by simp [hs]) (by simp [hs])]
    rw [Mode, hs] at hmode
    obtain ⟨hl, -, hop, haddr, hmiss, -⟩ := hmode
    have hM := ((memInv_iff (by simp [hs])).mp hm).1
    have hn := not_has_of_miss hl (by simp [slots, hs]) hmiss
    rw [hM]
    simp only [tick_saveaddr, inService, hs, base, DirectMapped.value_of_not_has hn]
    rw [hd (by rw [hs]; rfl) hmr hop, haddr]
    simp [dramView, hs]
  case uncacheStoreDone hs hmr =>
    rw [Mode, hs] at hmode
    obtain ⟨-, -, -, -, -, hop⟩ := hmode
    rcases hop with hop | hop <;> simp [hop] at ho
  all_goals simp_all

end L2View

end R9999
