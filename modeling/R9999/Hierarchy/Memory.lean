import R9999.Hierarchy.Presence
import R9999.L2.Refinement

/-!
# The memory the processor sees

The L1D, the L2 and DRAM together present one memory.  Two memories are followed along a
run: `below`, what the L2 and DRAM present (`L2View.MemInv`), and `cpu`, what the processor
sees, which is newer in the lines the L1D has changed.  The processor's memory changes only by
the stores the L1D performs, the uncached stores the L2 accepts, and the operations that
discard a line (`l1dChange`, `l2Change`).

`Newest` says where the newest value of a line can be found: in a copy of the L1D (`copy`), in
its writeback on the way to the L2 (`flight`), in its reply to a probe (`reply`), and in no
other place than the L2 and DRAM otherwise (`base`).  A line whose copies the L2 is about to
discard is `Condemned`: what the L1D still has of it no longer counts.

`Turn` lists what the L1D can do to its array and to the processor's memory at a clock edge;
the lemmas after it follow each place through the L1D's part of the edge.
-/

namespace R9999

namespace L1d

variable {g : Geometry} {s : L1d} {i : Input} {p : Proto} {a : Nat → L1dEntry}

/-- The request writes a whole line back. -/
def MemReq.Stores (q : MemReq) : Prop := q.cacheable = true ∧ (q.opcode = .sw ∨ q.opcode = .wb)

instance (q : MemReq) : Decidable q.Stores := inferInstanceAs (Decidable (_ ∧ _))

/-- A store that is performed is a hit in the set it is performed in. -/
theorem performs_step (h : Step g s i p a) (hp : Pipe g s) (hw : performs s = true) :
    s.regs.state = .active ∧ CoreReq.storeOp s.regs.req.op = true ∧
      Holds g s.arr s.regs.req.line s.regs.cacheIdx ∧ p.memReqValid = false ∧
      a = Function.update s.arr s.regs.cacheIdx
        { s.cur with dirty := true, data := s.regs.req.storeLine s.cur.data } := by
  have hw' := hw
  simp only [performs, wrArray, hitCache, Bool.and_eq_true] at hw
  obtain ⟨⟨⟨⟨ho, ⟨⟨ht, hg⟩, -⟩⟩, -⟩, -⟩, hc⟩ := hw
  have hs := (hp.got hg).1
  have hh : hits g s = true := by
    rw [← tagHit_eq_hits hp hg]
    exact ht
  have hch := isChop_of_storeOp ho
  cases h with
  | store _ _ _ _ _ _ f _ b =>
    exact ⟨hs, ho, (hits_iff hp hg).mp hh, by cases f <;> cases b <;> rfl, rfl⟩
  | run _ hn => exact absurd hw' (by simp [hn])
  | startCache _ hd | startCl _ hd | startPg _ hd | startDma _ hd => simp [drained, hg] at hd
  | wait hn => simp [hs, waiting] at hn
  | uncacheDone hn => simp [hs] at hn
  | _ => simp_all

/-- Without a reply, an L1D that waits changes its array only to answer a probe. -/
theorem held_step (h : Step g s i p a) (ho : s.regs.proto.out = true)
    (hr : i.memRspValid = false) (hc : s.regs.state ≠ .probeChk) : a = s.arr := by
  have hfree : ∀ {t}, s.regs.state = t → free t = true → a = s.arr := by
    intro t hs ht
    exact absurd ho (by rw [Proto.out_free (p := s.regs.proto) hs ht]; decide)
  cases h with
  | takeProbe | wait => rfl
  | probeChk hs => exact absurd hs hc
  | init hs | initCache hs | initCacheLast hs | run hs | store hs | stall hs | directFill hs
  | chopWb hs | chopInvl hs | uncachedEvict hs | uncachedDrop hs | uncachedSend hs | victim hs
  | fetch hs | startCache hs | startCl hs | startPg hs | startDma hs | handleReload hs
  | flushClInvl hs | flushClWb hs | flushClClean hs | flushPgWb hs | flushPgDrop hs
  | flushDirty hs | flushClean hs | flushCleanLast hs => exact hfree hs rfl
  | reload _ hm | uncacheDone _ hm | flushClDone _ hm | flushPgNext _ hm | flushPgLast _ hm
  | flushNext _ hm | flushLast _ hm => exact absurd hm (by simp [hr])
  | uncacheWbDone hs hm =>
    have h0 := Proto.out_uncacheWb (p := s.regs.proto) hs
    have hd : s.regs.uncacheWbDirty = true := h0.symm.trans ho
    simp [hd, hr] at hm

/-- The reply to a probe. -/
theorem reply_step (h : Step g s i p a) (hs : s.regs.state = .probeChk) :
    let hit := s.cur.valid && s.cur.tag == s.regs.prbTag
    let transit := s.regs.prbRet != .active &&
      (s.regs.memReq.opcode == .sw || s.regs.memReq.opcode == .wb) &&
        s.regs.memReq.addr == i.probeAddr
    p.memReqValid = false ∧ p.prbDirty = (transit || (hit && s.cur.dirty)) ∧
      p.prbData = (if transit then s.regs.memReq.storeData else s.cur.data) ∧
      a = if hit then s.dropCur else s.arr := by
  cases h with
  | probeChk _ hit transit hh ht =>
    subst hh ht
    exact ⟨rfl, rfl, rfl, rfl⟩
  | wait hw => simp [hs, waiting] at hw
  | takeProbe _ _ _ _ ho => simp [prbOkState, hs] at ho
  | uncacheDone hw => simp [hs] at hw
  | _ hs' => simp [hs] at hs'

/-- A probe that does not return to `ACTIVE` has interrupted a wait. -/
theorem out_of_prbRet (hp : Pipe g s) (hs : s.regs.state = .probeChk)
    (hr : s.regs.prbRet ≠ .active) : s.regs.proto.out = true := by
  obtain ⟨h1, h2⟩ := hp.ret hs
  have hb : s.regs.proto.behind = s.regs.prbRet := by
    rw [Proto.behind, L1d.behind, if_pos (show s.regs.proto.state = _ from hs)]
    rfl
  rw [Proto.out, hb]
  cases hq : s.regs.prbRet <;> simp [hq, probed] at h1 hr
  case uncacheWb => simp [waiting, show s.regs.proto.uncacheWbDirty = true from h2 hq]
  all_goals rfl

/-- An outstanding store other than an uncached one writes a whole line back. -/
theorem stores_of_out (hq : Sent g s.regs.proto s.arr) (ho : s.regs.proto.out = true)
    (hop : s.regs.memReq.opcode = .sw ∨ s.regs.memReq.opcode = .wb)
    (hu : s.regs.proto.behind ≠ .injectUncacheStore) : s.regs.memReq.Stores := by
  refine ⟨?_, hop⟩
  unfold Sent at hq
  unfold Proto.out at ho
  cases hb : s.regs.proto.behind <;> simp only [hb] at hq ho
  case injectReload => exact hq.1.1
  case injectUncacheStore => exact absurd hb hu
  case injectUncacheLoad =>
    have hl : s.regs.memReq.opcode = .lw := hq.2.1
    rcases hop with hop | hop <;> rw [hl] at hop <;> cases hop
  case uncacheWb => exact (hq (by simpa [waiting] using ho)).2.1.1
  case flushCacheWait | flushCacheLastWait => exact hq.2.1.1
  case flushClWait | flushPgWait =>
    rcases hq with hq | hq
    · exact hq.2.1.1
    · exact hq.2.1.1
  all_goals simp [waiting] at ho

/-- An outstanding cacheable load is a fill. -/
theorem behind_of_load (hq : Sent g s.regs.proto s.arr) (ho : s.regs.proto.out = true)
    (hop : s.regs.memReq.opcode = .lw) (hc : s.regs.memReq.cacheable = true) :
    s.regs.proto.behind = .injectReload := by
  have hnot : ∀ {op : MemOp}, s.regs.memReq.opcode = op → op ≠ .lw → False :=
    fun h1 h2 => h2 (h1.symm.trans hop)
  unfold Sent at hq
  unfold Proto.out at ho
  cases hb : s.regs.proto.behind <;> simp only [hb] at hq ho
  case injectReload => rfl
  case injectUncacheStore | injectUncacheLoad => exact absurd (hc.symm.trans hq.1) (by decide)
  case uncacheWb => exact (hnot (hq (by simpa [waiting] using ho)).1 (by decide)).elim
  case flushCacheWait | flushCacheLastWait => exact (hnot hq.1 (by decide)).elim
  case flushClWait | flushPgWait =>
    rcases hq with ⟨hq, -⟩ | ⟨hq | hq, -⟩ <;> exact (hnot hq (by decide)).elim
  all_goals simp [waiting] at ho

end L1d

namespace L2View

variable {g : Geometry} {v v' : L2View} {i : L2.Input}

/-- An idle L2 that accepts nothing looks nothing up. -/
theorem rest_of_idle (h : Step g v i v') (hs : v.regs.state = .idle)
    (ha : accepts v.regs i = false) (hn : acceptsSnoop v.regs i = false) :
    looking v'.regs.state = false := by
  cases h
  case memWait hm _ => simp [hs, memWaiting] at hm
  case idleReq hf hn' hv _ | idleUncached hf hn' hv _ => simp [accepts, hs, hf, hn', hv] at ha
  case idleSnoop hf hn' => simp [acceptsSnoop, hs, hf, hn'] at hn
  all_goals simp_all [looking]

/-- The registers after a snoop has been accepted. -/
theorem acceptedSnoop_step (h : Step g v i v') (ha : acceptsSnoop v.regs i = true) :
    v'.regs.state = .waitForRam ∧ v'.regs.opcode = .snoopInvl ∧
      v'.regs.saveaddr = i.snoopReqAddr ∧ v'.regs.snpWbinv = i.snoopReqWbinv ∧
      v'.regs.fromD = false := by
  simp only [acceptsSnoop, Bool.and_eq_true, Bool.not_eq_true', decide_eq_true_eq] at ha
  obtain ⟨⟨hs, hf⟩, hv⟩ := ha
  cases h
  case idleSnoop => exact ⟨rfl, rfl, rfl, rfl, rfl⟩
  case memWait hm _ => simp [hs, memWaiting] at hm
  all_goals simp_all

/-- An operation that discards its line is looked up until it is done. -/
theorem discard_step (h : Step g v i v') (hc : Ctl g v) (hl : looking v.regs.state = true)
    (hd : discards v.regs = true) :
    looking v'.regs.state = true ∨ v.regs.state = .checkValidAndTag ∧
      v.regs.isUncache = false ∧ needsProbe v.regs v.cur = false := by
  have hm := hc.mode
  have hop : v.regs.opcode = .pgdrop ∨ v.regs.opcode = .snoopInvl := by
    simp only [discards, Bool.or_eq_true, Bool.and_eq_true, beq_iff_eq] at hd
    rcases hd with h | ⟨h, -⟩
    · exact .inl h
    · exact .inr h
  have hfill : Filling g v.regs → looking v'.regs.state = true ∨
      v.regs.state = .checkValidAndTag ∧ v.regs.isUncache = false ∧
        needsProbe v.regs v.cur = false := by
    rintro ⟨-, -, -, ho⟩
    rcases ho with ho | ho <;> rcases hop with hop | hop <;> rw [ho] at hop <;> cases hop
  cases h
  case memWait => exact .inl hl
  case uncachedWriteBack hs hu _ _ | uncachedHit hs hu _ _ | uncachedMiss hs hu _ =>
    simp only [Mode, hs, OpOk, hu, if_true] at hm
    rcases hm.2.1 with ho | ho <;> rcases hop with hop | hop <;> rw [ho] at hop <;> cases hop
  case dirtyStoreDone hs _ | cleanReloadDone hs _ =>
    rw [Mode, hs] at hm
    exact hfill hm.1
  all_goals simp_all [looking]

end L2View

namespace Hier

open L2View (accepts acceptsSnoop access discards looking MemInv)

variable {g : Geometry} {s : Hier} {i : Stim}

/-! ## Where the newest value of a line is -/

/-- The operation in service discards every cached copy of the line. -/
def Condemned (s : Hier) (x : LineAddr) : Prop :=
  looking s.l2.regs.state = true ∧ discards s.l2.regs = true ∧ s.l2.regs.saveaddr = x

instance (s : Hier) (x : LineAddr) : Decidable (Condemned s x) :=
  inferInstanceAs (Decidable (_ ∧ _ ∧ _))

/-- The L2 serves the L1D. -/
def servesD (s : Hier) : Bool := s.served && s.l2.regs.fromD

/-- The L1D's writeback of the line is waiting to be accepted by the L2. -/
def Flight (s : Hier) (x : LineAddr) : Prop :=
  s.l1dOut = true ∧ s.servesD = false ∧ s.l1d.regs.memReq.Stores ∧ s.l1d.regs.memReq.addr = x

instance (s : Hier) (x : LineAddr) : Decidable (Flight s x) :=
  inferInstanceAs (Decidable (_ ∧ _ ∧ _ ∧ _))

/-- The L1D's reply to a probe brings the L2 the newest value of the line. -/
def Reply (s : Hier) (x : LineAddr) : Prop :=
  s.l1d.regs.prbAck = true ∧ s.l1d.regs.prbDirty = true ∧ discards s.l2.regs = false ∧
    s.l2.regs.probeAddr = x

/-- The L1D has changed the line, and the change counts. -/
def Dirty (g : Geometry) (s : Hier) (x : LineAddr) : Prop :=
  ¬ Condemned s x ∧ ∃ j, L1d.Holds g s.l1d.arr x j ∧ (s.l1d.arr j).dirty = true

/-- The newest value of the line is not in the L2 or DRAM. -/
def Ahead (g : Geometry) (s : Hier) (x : LineAddr) : Prop :=
  Dirty g s x ∨ Flight s x ∨ Reply s x

/-- The two memories: `below` is what the L2 and DRAM present, `cpu` what the processor
sees. -/
structure Seen where
  below : Mem
  cpu : Mem

/-- The places that can have the newest value of a line. -/
structure Newest (g : Geometry) (s : Hier) (m : Seen) : Prop where
  mem : MemInv g m.below s.dram s.l2.view
  copy : ∀ x j, L1d.Holds g s.l1d.arr x j → ¬ Condemned s x → (s.l1d.arr j).data = m.cpu x
  flight : ∀ x, Flight s x → s.l1d.regs.memReq.storeData = m.cpu x
  reply : ∀ x, Reply s x → s.l1d.regs.prbData = m.cpu x
  base : ∀ x, m.cpu x = m.below x ∨ Ahead g s x
  /-- A writeback that is in service is in the memory below. -/
  landed : s.servesD = true → s.l1d.regs.memReq.Stores →
    s.l1d.regs.memReq.storeData = m.cpu s.l1d.regs.memReq.addr ∧
      s.l1d.regs.memReq.storeData = m.below s.l1d.regs.memReq.addr
  /-- A load is answered with the memory below. -/
  answer : s.l1dRsp = true → s.l1d.regs.memReq.opcode = .lw →
    s.l2.regs.rspData = m.below s.l1d.regs.memReq.addr
  /-- The line of an uncached access in service is not in the L1D. -/
  bare : s.servesD = true → s.l1d.regs.memReq.cacheable = false →
    Absent g s s.l1d.regs.memReq.addr
  /-- The L2 serves the L1I the line that it asks for. -/
  fetch : s.served = true → s.l2.regs.fromD = false →
    s.l2.regs.opcode = .lw ∧ s.l2.regs.saveaddr = s.l1i.addr
  fetched : s.l1iRsp = true → s.l2.regs.rspData = m.below s.l1i.addr

/-! ## What a clock edge changes -/

/-- The registers of the L1D after the edge. -/
def nextProto (g : Geometry) (s : Hier) (i : Stim) : L1d.Proto := (s.next g i).l1d.regs.proto

/-- The array of the L1D after the edge. -/
def nextArr (g : Geometry) (s : Hier) (i : Stim) : Nat → L1dEntry := (s.next g i).l1d.arr

/-- The operation of the L1D that takes effect in this cycle.  A writeback is seen by the
processor only if its line had been condemned; a line that the L1D discards falls back to what
is below. -/
def l1dChange (g : Geometry) (s : Hier) (i : Stim) (M : Mem) : Access :=
  let r := s.l1d.regs.req
  let q := (nextProto g s i).memReq
  if L1d.performs s.l1d then
    if Condemned s r.line then .load r.line else .write r.line r.writes r.bytes
  else if (nextProto g s i).memReqValid then
    if q.Stores then
      if Condemned s q.addr then .write q.addr Mask.full q.storeData else .load q.addr
    else if (q.opcode = .invl ∨ q.opcode = .pgdrop) ∧ L1d.Holds g s.l1d.arr q.addr q.idx then
      .drop q.addr (M q.addr)
    else .load q.addr
  else .load 0

/-- The operation of the L2 that changes what the processor sees: an uncached store, or one
that discards a line, unless a writeback of the line is still to come. -/
def l2Change (g : Geometry) (s : Hier) (i : Stim) : Access :=
  let q := s.l2Req g
  if accepts s.l2.regs (s.l2Pins g i) then
    if q.opcode = .pgdrop then .drop q.addr (s.dram q.addr)
    else if q.cacheable = false ∧ q.opcode = .sw then .write q.addr q.mask q.storeData
    else .load q.addr
  else if acceptsSnoop s.l2.regs (s.l2Pins g i) = true ∧ i.snoopReqWbinv = false ∧
      ¬ Flight (s.next g i) i.snoopReqAddr then
    .drop i.snoopReqAddr (s.dram i.snoopReqAddr)
  else .load 0

/-- The two memories after a clock edge. -/
def seenNext (g : Geometry) (s : Hier) (i : Stim) (m : Seen) : Seen where
  below := (access g s.l2.view (s.l2Pins g i) s.dram).apply m.below
  cpu := (l2Change g s i).apply ((l1dChange g s i m.below).apply m.cpu)

/-- No uncached access meets a copy of the L1D, and no probe the line of an uncached store
that waits. -/
def Safe (g : Geometry) (s : Hier) (i : Stim) : Prop :=
  Undisturbed g s i ∧
    ¬ (s.l1d.regs.state = .probeChk ∧ s.l1d.regs.prbRet = .injectUncacheStore ∧
      s.l1d.regs.memReq.addr = s.l2.regs.probeAddr)

instance (g : Geometry) (s : Hier) (i : Stim) : Decidable (Safe g s i) :=
  inferInstanceAs (Decidable (_ ∧ ¬ (_ ∧ _ ∧ _)))

/-! ## The L1D's part of a clock edge -/

/-- What the L1D does to its array and to the memory the processor sees: `p` are its registers
after the edge, `a` its array. -/
inductive Turn (g : Geometry) (s : Hier) (p : L1d.Proto) (a : Nat → L1dEntry) (M V : Mem) :
    Mem → Prop
  | store (hs : s.l1d.regs.state = .active)
      (hh : L1d.Holds g s.l1d.arr s.l1d.regs.req.line s.l1d.regs.cacheIdx)
      (hv : p.memReqValid = false)
      (ha : a = Function.update s.l1d.arr s.l1d.regs.cacheIdx
        { s.l1d.cur with
          dirty := true
          data := Line.merge s.l1d.regs.req.writes s.l1d.regs.req.bytes s.l1d.cur.data }) :
      Turn g s p a M V
        (if Condemned s s.l1d.regs.req.line then V
        else Function.update V s.l1d.regs.req.line
          (Line.merge s.l1d.regs.req.writes s.l1d.regs.req.bytes (V s.l1d.regs.req.line)))
  | send (ho : s.l1dOut = false) (hv : p.memReqValid = true) (hq : p.memReq.Stores)
      (hh : L1d.Holds g s.l1d.arr p.memReq.addr p.memReq.idx)
      (hd : p.memReq.storeData = (s.l1d.arr p.memReq.idx).data)
      (ha : ∀ j, a j = s.l1d.arr j ∨ j = p.memReq.idx ∧ (a j).valid = false) :
      Turn g s p a M V
        (if Condemned s p.memReq.addr then Function.update V p.memReq.addr p.memReq.storeData
        else V)
  | discard (ho : s.l1dOut = false) (hv : p.memReqValid = true) (hq : ¬ p.memReq.Stores)
      (ha : ∀ x j, L1d.Holds g a x j ↔
        L1d.Holds g s.l1d.arr x j ∧ ¬ (x = p.memReq.addr ∧ j = p.memReq.idx))
      (hk : ∀ j, a j = s.l1d.arr j ∨ a j = L1d.dropEntry (s.l1d.arr j)) :
      Turn g s p a M V
        (if L1d.Holds g s.l1d.arr p.memReq.addr p.memReq.idx then
          Function.update V p.memReq.addr (M p.memReq.addr)
        else V)
  | fill (hs : s.l1d.regs.state = .injectReload) (hr : s.l1dRsp = true)
      (ho : s.l1d.regs.memReq.opcode = .lw) (hv : p.memReqValid = false)
      (ha : a = Function.update s.l1d.arr s.l1d.regs.memReq.idx
        ⟨true, false, g.l1Tag s.l1d.regs.memReq.addr, s.l2.regs.rspData⟩) :
      Turn g s p a M V V
  | probe (hs : s.l1d.regs.state = .probeChk) (hv : p.memReqValid = false) : Turn g s p a M V V
  | taken (hs : s.l1d.regs.state = .injectReload) (hr : s.l1dRsp = true)
      (ho : s.l1d.regs.memReq.opcode = .sw) (hv : p.memReqValid = false) (e : L1dEntry)
      (he : e.valid = false) (ha : a = Function.update s.l1d.arr s.l1d.regs.memReq.idx e) :
      Turn g s p a M V V
  | keep (hv : p.memReqValid = true → ¬ p.memReq.Stores)
      (ha : ∀ j, a j = s.l1d.arr j ∨ (s.l1d.arr j).dirty = false ∧ (a j).valid = false) :
      Turn g s p a M V V

theorem l1dChange_store (hw : L1d.performs s.l1d = true) (M V : Mem) :
    (l1dChange g s i M).apply V = if Condemned s s.l1d.regs.req.line then V
      else Function.update V s.l1d.regs.req.line
        (Line.merge s.l1d.regs.req.writes s.l1d.regs.req.bytes (V s.l1d.regs.req.line)) := by
  simp only [l1dChange, if_pos hw]
  split <;> rfl

theorem l1dChange_idle (hw : L1d.performs s.l1d ≠ true) (hv : (nextProto g s i).memReqValid = false)
    (M V : Mem) : (l1dChange g s i M).apply V = V := by
  simp [l1dChange, hw, hv, Access.apply]

theorem l1dChange_send (hw : L1d.performs s.l1d ≠ true) (hv : (nextProto g s i).memReqValid = true)
    (hq : (nextProto g s i).memReq.Stores) (M V : Mem) :
    (l1dChange g s i M).apply V = if Condemned s (nextProto g s i).memReq.addr then
        Function.update V (nextProto g s i).memReq.addr (nextProto g s i).memReq.storeData
      else V := by
  simp only [l1dChange, if_neg hw, if_pos hv, if_pos hq]
  by_cases hc : Condemned s (nextProto g s i).memReq.addr
  · rw [if_pos hc, if_pos hc, Access.apply, Line.merge_full]
  · rw [if_neg hc, if_neg hc, Access.apply]

/-- A request that is not a writeback discards its line, or asks for it. -/
theorem l1dChange_ask (hw : L1d.performs s.l1d ≠ true) (hv : (nextProto g s i).memReqValid = true)
    (hq : ¬ (nextProto g s i).memReq.Stores) (M V : Mem) :
    (l1dChange g s i M).apply V =
      if ((nextProto g s i).memReq.opcode = .invl ∨ (nextProto g s i).memReq.opcode = .pgdrop) ∧
          L1d.Holds g s.l1d.arr (nextProto g s i).memReq.addr (nextProto g s i).memReq.idx then
        Function.update V (nextProto g s i).memReq.addr (M (nextProto g s i).memReq.addr)
      else V := by
  simp only [l1dChange, if_neg hw, if_pos hv, if_neg hq]
  rw [apply_ite Access.apply, ite_apply]
  rfl

theorem turn (hs : Sound g s) (M V : Mem) :
    Turn g s (nextProto g s i) (nextArr g s i) M V ((l1dChange g s i M).apply V) := by
  have hstep : L1d.Step g s.l1d (s.l1dPins i) (nextProto g s i) (nextArr g s i) := hs.l1dStep
  have hact : L1d.Act g s.l1d (s.l1dPins i) (nextProto g s i) (nextArr g s i) := hs.act
  by_cases hw : L1d.performs s.l1d = true
  · obtain ⟨hst, ho, hh, hv, ha⟩ := L1d.performs_step hstep hs.wf.pipe hw
    rw [l1dChange_store hw]
    refine .store hst hh hv ?_
    rw [← CoreReq.storeLine_eq_merge _ _ ho]
    exact ha
  · have hfree : (nextProto g s i).memReqValid = true → s.l1dOut = false :=
      (L1d.out_step hstep hs.wf.pipe hs.wf.expects).2
    have hno : ∀ {b : Bool}, (nextProto g s i).memReqValid = false →
        (nextProto g s i).memReqValid = true → b = true := by
      intro b h1 h2
      exact absurd (h2.symm.trans h1) (by decide)
    cases hact with
    | store _ _ hw' => exact absurd hw' hw
    | keep ha hv =>
      rw [l1dChange_idle hw hv]
      exact .keep (fun h => absurd (h.symm.trans hv) (by decide)) fun j => .inl (by rw [ha])
    | drop k e he he' hd ha hv =>
      rw [l1dChange_idle hw hv]
      refine .keep (fun h => absurd (h.symm.trans hv) (by decide)) fun j => ?_
      by_cases hj : j = k
      · subst hj
        exact .inr ⟨hd, by rw [ha, Function.update_self]; exact he⟩
      · exact .inl (by rw [ha, Function.update_of_ne hj])
    | probe hst hv =>
      rw [l1dChange_idle hw hv]
      exact .probe hst hv
    | request hv ha ho =>
      have hq : ¬ (nextProto g s i).memReq.Stores := by
        rintro ⟨hc, ho'⟩
        rcases ho with ho | ho
        · rcases ho' with ho' | ho' <;> exact absurd (ho.symm.trans ho') (by decide)
        · exact absurd (hc.symm.trans ho) (by decide)
      have hne : ¬ ((nextProto g s i).memReq.opcode = .invl ∨
          (nextProto g s i).memReq.opcode = .pgdrop) := by
        have hok := L1d.memReq_ok hstep hv
        unfold L1d.MemReq.Ok at hok
        rcases ho with ho | ho
        · simp [ho]
        · rw [ho, if_neg Bool.false_ne_true] at hok
          rcases hok with h | h <;> simp [h]
      rw [l1dChange_ask hw hv hq, if_neg fun h => hne h.1]
      exact .keep (fun _ => hq) fun j => .inl (by rw [ha])
    | victim hv ha hh hd hq ho hc =>
      rw [l1dChange_send hw hv ⟨hc, .inl ho⟩]
      exact .send (hfree hv) hv ⟨hc, .inl ho⟩ hh hq fun j => .inl (by rw [ha])
    | evict hv e he he' ha hh hd hq ho hc =>
      rw [l1dChange_send hw hv ⟨hc, ho⟩]
      refine .send (hfree hv) hv ⟨hc, ho⟩ hh hq fun j => ?_
      by_cases hj : j = (nextProto g s i).memReq.idx
      · refine .inr ⟨hj, ?_⟩
        rw [ha, hj, Function.update_self]
        exact he
      · exact .inl (by rw [ha, Function.update_of_ne hj])
    | discard hv ho hc ha hk =>
      have hq : ¬ (nextProto g s i).memReq.Stores := by
        rintro ⟨-, ho'⟩
        rcases ho with ho | ho <;> rcases ho' with ho' | ho' <;>
          exact absurd (ho.symm.trans ho') (by decide)
      rw [l1dChange_ask hw hv hq]
      simp only [ho, true_and]
      exact .discard (hfree hv) hv hq ha hk
    | fill hst hm ho hv ha =>
      rw [l1dChange_idle hw hv]
      exact .fill hst hm ho hv ha
    | taken hst hm ho hv e he he' ha =>
      rw [l1dChange_idle hw hv]
      exact .taken hst hm ho hv e he ha

namespace Present

variable (hs : Sound g s) (h : Present g s)

include hs h

/-- A line that the L1D gave up to a probe is in none of its sets. -/
theorem absent_of_ack (ha : s.l1d.regs.prbAck = true) : Absent g s s.l2.regs.probeAddr := by
  obtain ⟨hr, -⟩ := hs.wf.probing.ack ha
  obtain ⟨-, -, hpa, hpc⟩ := hs.wf.pulses.probe hr
  intro j hj
  have hx : g.l2Idx s.l2.regs.probeAddr = s.l2.view.regs.idx := by
    have hpa' : s.l2.regs.probeAddr = g.l2Line s.l2.view.cur.tag s.l2.view.regs.idx := hpa
    rw [hpa']
    exact g.l2Idx_l2Line _ hs.wf.ctl.idx_lt
  have hpres := ((h.incl _ j hj).cur_of_idx hx).2.2
  have hcol : s.l2.regs.probeColour = g.colour j := by
    refine hpc.trans ?_
    rw [hpres]
  refine h.answered ha ?_
  rw [hcol, hj.2.2.set]
  exact hj

/-- A line that arrives is in no set yet. -/
theorem absent_of_fill (hi : s.l1d.regs.state = .injectReload) (hr : s.l1dRsp = true)
    (ho : s.l1d.regs.memReq.opcode = .lw) : Absent g s s.l1d.regs.memReq.addr := by
  have hq := hs.sent
  have hb := L1d.Proto.behind_eq (p := s.l1d.regs.proto) hi (by decide)
  simp only [L1d.Sent, hb] at hq
  have hgr := h.granted hr ho hq.1.1
  intro j hj
  have hc : (⟨true, g.colour j⟩ : Pres) = ⟨true, g.colour s.l1d.regs.memReq.idx⟩ :=
    (h.incl _ j hj).2.2.symm.trans hgr.2.2
  have hx : j = s.l1d.regs.memReq.idx := hj.2.2.eq hq.1.2 (by simpa using hc)
  rcases hq.2 with hq' | hq'
  · rw [hx] at hj
    exact hq'.2.2.1 hj
  · exact absurd (hq'.1.symm.trans ho) (by decide)

end Present

namespace Sound

variable (hs : Sound g s)

include hs

theorem servesD_of_rsp (hr : s.l1dRsp = true) : s.servesD = true := by
  rw [hs.wf.route.1, Bool.and_eq_true] at hr
  simp [servesD, served, hr.1, hr.2]

theorem out_of_servesD (h : s.servesD = true) : s.l1dOut = true := by
  rw [servesD, Bool.and_eq_true] at h
  exact hs.out_of_served h.1 h.2

theorem no_rsp_of_ack (ha : s.l1d.regs.prbAck = true) : s.l2.regs.rspValid = false := by
  obtain ⟨hr, -⟩ := hs.wf.probing.ack ha
  cases hv : s.l2.regs.rspValid
  · rfl
  · exact absurd ⟨hv, hr⟩ hs.wf.quiet.1

end Sound

/-- A writeback in flight is not the one a reply belongs to. -/
theorem not_flight_of_rsp (hs : Sound g s) (hr : s.l1dRsp = true) (x : LineAddr) :
    ¬ Flight s x := by
  rintro ⟨-, hn, -⟩
  exact absurd (hs.servesD_of_rsp hr) (by simp [hn])

/-- A probe for an operation that discards is for the line of the operation. -/
theorem condemned_of_probe (hs : Sound g s) (hr : s.l2.regs.probeReq = true)
    (hd : discards s.l2.regs = true) : Condemned s s.l2.regs.probeAddr := by
  obtain ⟨hst, hn, hpa, -⟩ := hs.wf.pulses.probe hr
  obtain ⟨-, -, -, -, ho⟩ := L2View.needsProbe_cases hn
  have hst' : s.l2.regs.state = .checkValidAndTag := hst
  have hfo : L2View.fillOp s.l2.view.regs.opcode = false := by
    have hd' : discards s.l2.view.regs = true := hd
    simp only [discards, Bool.or_eq_true, Bool.and_eq_true, beq_iff_eq] at hd'
    rcases hd' with h | ⟨h, -⟩ <;> rw [h] <;> rfl
  have hh : L2.hit s.l2.view.regs s.l2.view.cur = true := by
    rcases ho with ho | ho
    · exact absurd (hfo.symm.trans ho) (by decide)
    · exact ho
  have hm := hs.wf.ctl.mode
  rw [L2View.Mode, hst] at hm
  refine ⟨by rw [hst']; rfl, hd, ?_⟩
  exact (hpa.trans (L2View.l2Line_of_hit hm.1 hh)).symm

/-- Where the newest value of a line can be once the L1D has done its part of the edge. -/
def Between (g : Geometry) (s : Hier) (i : Stim) (x : LineAddr) : Prop :=
  (¬ Condemned s x ∧ ∃ j, L1d.Holds g (nextArr g s i) x j ∧ (nextArr g s i j).dirty = true) ∨
    Flight s x ∨ Reply s x ∨
    ((nextProto g s i).memReqValid = true ∧ (nextProto g s i).memReq.Stores ∧
      (nextProto g s i).memReq.addr = x) ∨
    ((nextProto g s i).prbAck = true ∧ (nextProto g s i).prbDirty = true ∧
      discards s.l2.regs = false ∧ s.l2.regs.probeAddr = x)

section Mid

variable {m : Seen} {V : Mem}

/-- The processor's memory changes only at a line the L1D holds, and not while it waits. -/
theorem Turn.frame (ht : Turn g s (nextProto g s i) (nextArr g s i) m.below m.cpu V)
    (x : LineAddr) :
    V x = m.cpu x ∨ s.l1dOut = false ∧ ∃ j, L1d.Holds g s.l1d.arr x j := by
  have key : ∀ {y : LineAddr} {d : Line} {c : Prop} [Decidable c], s.l1dOut = false →
      (c → ∃ j, L1d.Holds g s.l1d.arr y j) →
      (if c then Function.update m.cpu y d else m.cpu) x = m.cpu x ∨
        s.l1dOut = false ∧ ∃ j, L1d.Holds g s.l1d.arr x j := by
    intro y d c _ ho hj
    by_cases hc : c
    · rw [if_pos hc]
      by_cases hx : x = y
      · subst hx
        exact .inr ⟨ho, hj hc⟩
      · exact .inl (Function.update_of_ne hx _ _)
    · rw [if_neg hc]
      exact .inl rfl
  cases ht with
  | store hst hh =>
    rw [← ite_not]
    exact key (L1d.Proto.out_free (p := s.l1d.regs.proto) hst rfl) fun _ => ⟨_, hh⟩
  | send ho _ _ hh => exact key ho fun _ => ⟨_, hh⟩
  | discard ho => exact key ho fun hh => ⟨_, hh⟩
  | _ => exact .inl rfl

theorem Turn.frame_of_absent (ht : Turn g s (nextProto g s i) (nextArr g s i) m.below m.cpu V)
    {x : LineAddr} (hx : Absent g s x) : V x = m.cpu x := by
  rcases ht.frame x with h | ⟨-, j, hj⟩
  · exact h
  · exact absurd hj (hx j)

theorem Turn.frame_of_out (ht : Turn g s (nextProto g s i) (nextArr g s i) m.below m.cpu V)
    (ho : s.l1dOut = true) (x : LineAddr) : V x = m.cpu x := by
  rcases ht.frame x with h | ⟨h, -⟩
  · exact h
  · exact absurd (ho.symm.trans h) (by decide)

/-- A line on which the two memories agreed. -/
theorem base_of_eq (ht : Turn g s (nextProto g s i) (nextArr g s i) m.below m.cpu V) {x : LineAddr} (hb : m.cpu x = m.below x) :
    V x = m.below x ∨ Between g s i x := by
  cases ht with
  | store hst hh hv ha =>
    by_cases hc : Condemned s s.l1d.regs.req.line
    · rw [if_pos hc]
      exact .inl hb
    rw [if_neg hc]
    by_cases hx : x = s.l1d.regs.req.line
    · subst hx
      refine .inr (.inl ⟨hc, s.l1d.regs.cacheIdx, ?_, ?_⟩)
      · simp only [L1d.Holds, ha, Function.update_self]
        exact hh
      · rw [ha, Function.update_self]
    · rw [Function.update_of_ne hx]
      exact .inl hb
  | send ho hv hq hh hd ha =>
    by_cases hx : x = (nextProto g s i).memReq.addr
    · exact .inr (.inr (.inr (.inr (.inl ⟨hv, hq, hx.symm⟩))))
    · refine .inl ?_
      split
      · rw [Function.update_of_ne hx]
        exact hb
      · exact hb
  | discard ho hv hq ha hk =>
    refine .inl ?_
    split
    · by_cases hx : x = (nextProto g s i).memReq.addr
      · rw [hx, Function.update_self]
      · rw [Function.update_of_ne hx]
        exact hb
    · exact hb
  | _ => exact .inl hb

/-- The line of a writeback that is being sent. -/
theorem flight_turn (hn : Newest g s m)
    (ht : Turn g s (nextProto g s i) (nextArr g s i) m.below m.cpu V)
    (hv : (nextProto g s i).memReqValid = true)
    (hq : (nextProto g s i).memReq.Stores) :
    (nextProto g s i).memReq.storeData = V (nextProto g s i).memReq.addr := by
  cases ht with
  | send ho _ _ hh hd ha =>
    by_cases hc : Condemned s (nextProto g s i).memReq.addr
    · rw [if_pos hc, Function.update_self]
    · rw [if_neg hc, hd]
      exact hn.copy _ _ hh hc
  | keep hv' _ => exact absurd hq (hv' hv)
  | discard _ _ hq' => exact absurd hq hq'
  | store _ _ hv' | fill _ _ _ hv' | probe _ hv' | taken _ _ _ hv' =>
    exact absurd (hv.symm.trans hv') (by decide)

/-- The reply to a load of a line that the L1D does not have. -/
theorem cpu_of_absent (hs : Sound g s) (hn : Newest g s m) (hr : s.l1dRsp = true)
    (ho : s.l1d.regs.memReq.opcode = .lw) (habs : Absent g s s.l1d.regs.memReq.addr) :
    s.l2.regs.rspData = m.cpu s.l1d.regs.memReq.addr := by
  rcases hn.base s.l1d.regs.memReq.addr with h | ⟨-, j, hj, -⟩ | h | h
  · exact (hn.answer hr ho).trans h.symm
  · exact absurd hj (habs j)
  · exact absurd h (not_flight_of_rsp hs hr _)
  · have hrv := hs.no_rsp_of_ack h.1
    rw [hs.wf.route.1, hrv] at hr
    cases hr

/-- The line of a fill is the same in both memories. -/
theorem cpu_of_fill (hs : Sound g s) (hp : Present g s) (hn : Newest g s m)
    (hi : s.l1d.regs.state = .injectReload) (hr : s.l1dRsp = true)
    (ho : s.l1d.regs.memReq.opcode = .lw) :
    s.l2.regs.rspData = m.cpu s.l1d.regs.memReq.addr :=
  cpu_of_absent hs hn hr ho (hp.absent_of_fill hs hi hr ho)

variable (hs : Sound g s) (hn : Newest g s m)
  (ht : Turn g s (nextProto g s i) (nextArr g s i) m.below m.cpu V)

include hs hn ht

/-- The reply to a probe. -/
theorem reply_turn (hu : ¬ (s.l1d.regs.state = .probeChk ∧
      s.l1d.regs.prbRet = .injectUncacheStore ∧ s.l1d.regs.memReq.addr = s.l2.regs.probeAddr))
    (ha : (nextProto g s i).prbAck = true) (hd : (nextProto g s i).prbDirty = true)
    (hdis : discards s.l2.regs = false) :
    (nextProto g s i).prbData = V s.l2.regs.probeAddr := by
  have hstep : L1d.Step g s.l1d (s.l1dPins i) (nextProto g s i) (nextArr g s i) := hs.l1dStep
  have hst : s.l1d.regs.state = .probeChk := by
    by_contra hst
    exact absurd (ha.symm.trans (L1d.takeProbe_step hstep hst).1) (by decide)
  obtain ⟨hr, -, htag, hx⟩ := hs.wf.probing.chk hst
  obtain ⟨hnv, hpd, hpr, -⟩ := L1d.reply_step hstep hst
  rw [hpd] at hd
  rw [hpr]
  have hV : V = m.cpu := by
    cases ht with
    | store hst' => exact absurd (hst.symm.trans hst') (by decide)
    | send _ hv | discard _ hv => exact absurd (hv.symm.trans hnv) (by decide)
    | _ => rfl
  rw [hV]
  split
  · next htr =>
    -- the writeback itself
    simp only [Bool.and_eq_true, Bool.or_eq_true, bne_iff_ne, beq_iff_eq, ne_eq] at htr
    obtain ⟨⟨hne, hop⟩, haddr⟩ := htr
    have haddr' : s.l1d.regs.memReq.addr = s.l2.regs.probeAddr := haddr
    have ho := L1d.out_of_prbRet hs.wf.pipe hst hne
    have hb : s.l1d.regs.proto.behind ≠ .injectUncacheStore := by
      rw [L1d.Proto.behind, L1d.behind, if_pos (show s.l1d.regs.proto.state = _ from hst)]
      exact fun hret => hu ⟨hst, hret, haddr'⟩
    have hq := L1d.stores_of_out hs.sent ho hop hb
    rw [← haddr']
    cases hsv : s.servesD with
    | true => exact (hn.landed hsv hq).1
    | false => exact hn.flight _ ⟨ho, hsv, hq, rfl⟩
  · next htr =>
    -- a dirty copy
    rw [Bool.eq_false_iff.mpr htr, Bool.false_or, Bool.and_eq_true, Bool.and_eq_true,
      beq_iff_eq] at hd
    have hpl : L1d.Placed g s.l2.regs.probeAddr s.l1d.regs.cacheIdx := by
      refine ⟨?_, (hs.sane _).2 hd.1.1⟩
      rw [hx]
      exact g.l1Set_mod _ _
    exact hn.copy _ _ ⟨hd.1.1, hd.1.2.trans htag, hpl⟩ fun hc => absurd hdis (by simp [hc.2.1])

/-- A line that the L1D had changed. -/
theorem base_of_dirty {x : LineAddr} (hx : Dirty g s x) :
    V x = m.below x ∨ Between g s i x := by
  obtain ⟨hc, j, hj, hd⟩ := hx
  have hkept : nextArr g s i j = s.l1d.arr j → V x = m.below x ∨ Between g s i x := by
    intro h
    refine .inr (.inl ⟨hc, j, ?_, ?_⟩)
    · simpa only [L1d.Holds, h] using hj
    · rw [h]
      exact hd
  cases ht with
  | store hst hh hv ha =>
    by_cases hx : j = s.l1d.regs.cacheIdx
    · subst hx
      refine .inr (.inl ⟨hc, s.l1d.regs.cacheIdx, ?_, ?_⟩)
      · simp only [L1d.Holds, ha, Function.update_self]
        exact hj
      · rw [ha, Function.update_self]
    · exact hkept (by rw [ha, Function.update_of_ne hx])
  | send ho hv hq hh hd' ha =>
    rcases ha j with he | ⟨he, -⟩
    · exact hkept he
    · refine .inr (.inr (.inr (.inr (.inl ⟨hv, hq, ?_⟩))))
      subst he
      rw [← hh.line, ← hj.line]
  | discard ho hv hq ha hk =>
    by_cases hx : x = (nextProto g s i).memReq.addr ∧ j = (nextProto g s i).memReq.idx
    · obtain ⟨rfl, rfl⟩ := hx
      refine .inl ?_
      rw [if_pos hj, Function.update_self]
    · have hj' := (ha x j).mpr ⟨hj, hx⟩
      rcases hk j with he | he
      · exact hkept he
      · have hv' := hj'.1
        rw [he] at hv'
        cases hv'
  | fill hi hr ho hv ha =>
    have hq := hs.sent
    have hb := L1d.Proto.behind_eq (p := s.l1d.regs.proto) hi (by decide)
    simp only [L1d.Sent, hb] at hq
    by_cases hx : j = s.l1d.regs.memReq.idx
    · subst hx
      rcases hq.2 with ⟨-, -, -, hq⟩ | hq
      · exact absurd (hd.symm.trans hq) (by decide)
      · exact absurd (hq.1.symm.trans ho) (by decide)
    · exact hkept (by rw [ha, Function.update_of_ne hx])
  | probe hst hv =>
    have hstep : L1d.Step g s.l1d (s.l1dPins i) (nextProto g s i) (nextArr g s i) := hs.l1dStep
    obtain ⟨-, hpd, -, ha⟩ := L1d.reply_step hstep hst
    by_cases hhit : (s.l1d.cur.valid && s.l1d.cur.tag == s.l1d.regs.prbTag) = true
    · by_cases hx : j = s.l1d.regs.cacheIdx
      · -- the probed line: its value goes into the reply
        subst hx
        obtain ⟨hr, -, htag, hidx⟩ := hs.wf.probing.chk hst
        have hxp : s.l2.regs.probeAddr = x := by
          rw [Bool.and_eq_true, beq_iff_eq] at hhit
          have hmod : s.l1d.regs.cacheIdx % g.pgLines = s.l2.regs.probeAddr % g.pgLines := by
            rw [hidx]
            exact g.l1Set_mod _ _
          rw [← g.l1Line_l1Tag hmod, ← htag, ← hhit.2, ← hj.line]
          rfl
        refine .inr (.inr (.inr (.inr (.inr ⟨?_, ?_, ?_, hxp⟩))))
        · exact (L1d.probeChk_step hstep hs.wf.pipe hst).1
        · rw [hpd, hhit, show s.l1d.cur.dirty = true from hd, Bool.and_self, Bool.or_true]
        · cases hdis : discards s.l2.regs
          · rfl
          · have hcd := condemned_of_probe hs hr hdis
            rw [hxp] at hcd
            exact absurd hcd hc
      · refine hkept ?_
        rw [ha, if_pos hhit]
        exact Function.update_of_ne hx _ _
    · exact hkept (by rw [ha, if_neg hhit])
  | taken hi hr ho hv e he ha =>
    by_cases hx : j = s.l1d.regs.memReq.idx
    · -- the victim of a miss: the L2 has it
      have hq := hs.sent
      have hb := L1d.Proto.behind_eq (p := s.l1d.regs.proto) hi (by decide)
      simp only [L1d.Sent, hb] at hq
      subst hx
      rcases hq.2 with ⟨hq', -⟩ | ⟨-, -, hq'⟩
      · exact absurd (hq'.symm.trans ho) (by decide)
      have hxa : x = s.l1d.regs.memReq.addr := by
        have htag : (s.l1d.arr s.l1d.regs.memReq.idx).tag = g.l1Tag s.l1d.regs.memReq.addr :=
          (hq' hj.1).1
        rw [← hj.line, htag]
        exact g.l1Line_l1Tag hq.1.2.1
      obtain ⟨h1, h2⟩ := hn.landed (hs.servesD_of_rsp hr) ⟨hq.1.1, .inl ho⟩
      rw [hxa]
      exact .inl (h1.symm.trans h2)
    · exact hkept (by rw [ha, Function.update_of_ne hx])
  | keep hv ha =>
    rcases ha j with he | ⟨he, -⟩
    · exact hkept he
    · exact absurd (hd.symm.trans he) (by decide)

/-- Where the L1D's part of the edge leaves a line. -/
theorem base_turn (x : LineAddr) : V x = m.below x ∨ Between g s i x := by
  rcases hn.base x with hb | hd | hf | hr
  · exact base_of_eq ht hb
  · exact base_of_dirty hs hn ht hd
  · exact .inr (.inr (.inl hf))
  · exact .inr (.inr (.inr (.inl hr)))

variable (hp : Present g s)

include hp

theorem copy_turn (x : LineAddr) (j : Nat) (hj : L1d.Holds g (nextArr g s i) x j)
    (hc : ¬ Condemned s x) : (nextArr g s i j).data = V x := by
  have hkeep : ∀ {e : L1dEntry}, e.valid = false →
      nextArr g s i j = e → False := by
    intro e he h
    have hv := hj.1
    rw [h, he] at hv
    cases hv
  have hsame : nextArr g s i j = s.l1d.arr j → L1d.Holds g s.l1d.arr x j := by
    intro h
    simpa only [L1d.Holds, h] using hj
  cases ht with
  | store ho hh hv ha =>
    by_cases hx : j = s.l1d.regs.cacheIdx
    · subst hx
      have hold : L1d.Holds g s.l1d.arr x s.l1d.regs.cacheIdx := by
        simp only [L1d.Holds, ha, Function.update_self] at hj
        exact hj
      have hxl : x = s.l1d.regs.req.line := hold.line.symm.trans hh.line
      have hd : s.l1d.cur.data = m.cpu x := hn.copy x _ hold hc
      rw [← hxl, if_neg hc, Function.update_self, ha, Function.update_self, ← hd]
    · have he : nextArr g s i j = s.l1d.arr j := by rw [ha, Function.update_of_ne hx]
      have hold := hsame he
      have hxl : x ≠ s.l1d.regs.req.line := by
        rintro rfl
        exact hx (hp.unique hold hh)
      rw [he, hn.copy x j hold hc]
      split
      · rfl
      · rw [Function.update_of_ne hxl]
  | send ho hv hq hh hd ha =>
    rcases ha j with he | ⟨-, he⟩
    · rw [he, hn.copy x j (hsame he) hc]
      by_cases hca : Condemned s (nextProto g s i).memReq.addr
      · rw [if_pos hca, Function.update_of_ne]
        rintro rfl
        exact hc hca
      · rw [if_neg hca]
    · exact absurd hj.1 (by simp [he])
  | discard ho hv hq ha hk =>
    obtain ⟨hold, hne⟩ := (ha x j).mp hj
    have he : nextArr g s i j = s.l1d.arr j := by
      rcases hk j with he | he
      · exact he
      · exact (hkeep rfl he).elim
    rw [he, hn.copy x j hold hc]
    by_cases hh : L1d.Holds g s.l1d.arr (nextProto g s i).memReq.addr (nextProto g s i).memReq.idx
    · rw [if_pos hh, Function.update_of_ne]
      rintro rfl
      exact hne ⟨rfl, hp.unique hold hh⟩
    · rw [if_neg hh]
  | fill hi hr ho hv ha =>
    by_cases hx : j = s.l1d.regs.memReq.idx
    · have hq := hs.sent
      have hb := L1d.Proto.behind_eq (p := s.l1d.regs.proto) hi (by decide)
      simp only [L1d.Sent, hb] at hq
      have hxl : x = s.l1d.regs.memReq.addr := by
        rw [← hj.line, ha, hx, Function.update_self]
        exact g.l1Line_l1Tag hq.1.2.1
      rw [ha, hx, Function.update_self, hxl]
      exact cpu_of_fill hs hp hn hi hr ho
    · have he : nextArr g s i j = s.l1d.arr j := by rw [ha, Function.update_of_ne hx]
      rw [he]
      exact hn.copy x j (hsame he) hc
  | probe hst hv =>
    have hstep : L1d.Step g s.l1d (s.l1dPins i) (nextProto g s i) (nextArr g s i) := hs.l1dStep
    obtain ⟨-, -, -, ha⟩ := L1d.reply_step hstep hst
    rcases L1d.drop_or_keep (s := s.l1d) (s.l1d.cur.valid && s.l1d.cur.tag == s.l1d.regs.prbTag) j
      with he | he
    · rw [← ha] at he
      rw [he]
      exact hn.copy x j (hsame he) hc
    · rw [← ha] at he
      exact (hkeep rfl he).elim
  | taken hi hr ho hv e he ha =>
    by_cases hx : j = s.l1d.regs.memReq.idx
    · exact (hkeep he (by rw [ha, hx, Function.update_self])).elim
    · have he : nextArr g s i j = s.l1d.arr j := by rw [ha, Function.update_of_ne hx]
      rw [he]
      exact hn.copy x j (hsame he) hc
  | keep hv ha =>
    rcases ha j with he | ⟨-, he⟩
    · rw [he]
      exact hn.copy x j (hsame he) hc
    · exact absurd hj.1 (by simp [he])

end Mid

end Hier

end R9999
