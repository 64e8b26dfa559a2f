import R9999.Core.AddrError
import R9999.L1d.AddrError
import R9999.Mmu.Contain

/-!
# Delivery of address errors

What becomes of an access that `mipsseg` flags.  The fetch unit marks the instruction
(`l1i.sv`), and decode turns it into an address error before it looks at the TLB's answer
(`decode_mips.sv`).  The address unit marks the request of a load, a store or a CACHE hit op
(`exec.sv`); the L1D answers it as an address error without touching anything, and the core
takes it as an exception.
-/

namespace R9999

namespace Mmu

open Iss (TlbOp srErl)

/-! ## The fetch -/

/-- What the fetch unit says of the instruction at `r_cache_pc`. -/
structure FetchFlags where
  misaligned : Bool
  tlbMiss : Bool
  tlbInvalid : Bool
  badVa : Bool

/-- `t_insn`, from the segment of the address and the answer of the instruction TLB. -/
def fetchFlags (sr : BitVec 32) (pc : BitVec 64) (hit valid : Bool) : FetchFlags where
  misaligned := pc.extractLsb' 0 2 != 0
  tlbMiss := (accessSeg sr .fetch pc).mapped && !hit && pc.extractLsb' 0 2 == 0
  tlbInvalid := (accessSeg sr .fetch pc).mapped && hit && !valid
  badVa := (accessSeg sr .fetch pc).badPerms

/-- The operation that decode puts in the place of an instruction whose fetch faulted. -/
def fetchFault (f : FetchFlags) : Option Core.Op :=
  if f.misaligned then some .fetchMisaligned
  else if f.badVa then some .fetchAddrError
  else if f.tlbMiss then some .fetchTlbMiss
  else if f.tlbInvalid then some .fetchTlbInvalid
  else none

/-- A flagged fetch is an address error, whatever the TLB answers. -/
theorem fetchFault_flagged {sr : BitVec 32} {pc : BitVec 64}
    (hb : (accessSeg sr .fetch pc).badPerms = true) (hit valid : Bool) :
    fetchFault (fetchFlags sr pc hit valid) = some .fetchMisaligned ∨
      fetchFault (fetchFlags sr pc hit valid) = some .fetchAddrError := by
  have hbad : (fetchFlags sr pc hit valid).badVa = true := hb
  by_cases hm : (fetchFlags sr pc hit valid).misaligned = true
  · exact .inl (if_pos hm)
  · refine .inr ?_
    rw [fetchFault, if_neg hm, if_pos hbad]

section Line

variable {sr : BitVec 32} {a b : BitVec 64}

/-- The addresses lie in one line. -/
def SameLine (a b : BitVec 64) : Prop := ∀ k, 4 ≤ k → a.getLsbD k = b.getLsbD k

theorem sameLine_of_div (h : a.toNat / 16 = b.toNat / 16) : SameLine a b := by
  intro k hk
  have hbit := congrArg (Nat.testBit · (k - 4)) h
  have hadd : 4 + (k - 4) = k := by omega
  change (a.toNat / 2 ^ 4).testBit (k - 4) = (b.toNat / 2 ^ 4).testBit (k - 4) at hbit
  rwa [Nat.testBit_div_two_pow, Nat.testBit_div_two_pow, Nat.add_comm, hadd] at hbit

theorem SameLine.field (h : SameLine a b) {lo : ℕ} (hlo : 4 ≤ lo) (n : ℕ) :
    a.extractLsb' lo n = b.extractLsb' lo n := by
  apply BitVec.eq_of_getLsbD_eq
  intro k hk
  rw [BitVec.getLsbD_extractLsb', BitVec.getLsbD_extractLsb', h (lo + k) (by omega)]

theorem SameLine.effective (h : SameLine a b) (sr : BitVec 32) :
    SameLine (effective sr a) (effective sr b) := by
  intro k hk
  rw [Mmu.effective, Mmu.effective]
  split
  · exact h k hk
  · have hsign : (a.setWidth 32).msb = (b.setWidth 32).msb := by
      rw [BitVec.msb_eq_getLsbD_last, BitVec.msb_eq_getLsbD_last, BitVec.getLsbD_setWidth,
        BitVec.getLsbD_setWidth, h 31 (by decide)]
    rw [BitVec.getLsbD_signExtend, BitVec.getLsbD_signExtend, BitVec.getLsbD_setWidth,
      BitVec.getLsbD_setWidth, hsign, h k hk]

/-- The addresses of one line are flagged together, so that the second instruction of a fetch
group, whose own flags are clear, follows a flagged one when it should be flagged. -/
theorem SameLine.badPerms (h : SameLine a b) (sr : BitVec 32) (erl : Bool) :
    (mipsseg sr erl a).badPerms = (mipsseg sr erl b).badPerms := by
  have he := h.effective sr
  simp only [mipsseg]
  generalize Mmu.effective sr a = va at he
  generalize Mmu.effective sr b = vb at he
  have hregion : va.extractLsb' 62 2 = vb.extractLsb' 62 2 := he.field (by decide) 2
  have hhi : va.extractLsb' 32 32 = vb.extractLsb' 32 32 := he.field (by decide) 32
  have hkseg : va.extractLsb' 29 3 = vb.extractLsb' 29 3 := he.field (by decide) 3
  have hsign : va.getLsbD 31 = vb.getLsbD 31 := he 31 (by decide)
  have hones : va.extractLsb' 31 31 = vb.extractLsb' 31 31 := he.field (by decide) 31
  have hrange : va.extractLsb' 40 22 = vb.extractLsb' 40 22 := he.field (by decide) 22
  have hsegment : (segment sr erl va).seg = (segment sr erl vb).seg ∧
      (segment sr erl va).mapped = (segment sr erl vb).mapped := by
    rw [segment, segment, hregion, hhi, hkseg, hsign]
    split_ifs <;> exact ⟨rfl, rfl⟩
  have hsseg : isSseg sr va = isSseg sr vb := by rw [isSseg, isSseg, hhi, hkseg, hregion]
  have hoor : vaOor sr va = vaOor sr vb := by rw [vaOor, vaOor, hones, hrange]
  rw [hsegment.1, hsegment.2, hsseg, hoor]

end Line

/-! ## The requests of the address unit -/

/-- The operations of the memory unit. -/
inductive MemUop where
  | chwb | chwbinv | chinv | sb | sh | sw | sc | swr | swl | lw | lwu | lwl | lwr | lb | lbu
  | lhu | lh | ld | sd | ldl | ldr | sdl | sdr | ll | lld | scd | tlbp | mtc1 | mfc1 | dmtc1
  | dmfc1 | lwc1 | ldc1 | swc1 | sdc1
  deriving DecidableEq, Repr

namespace MemUop

/-- `t_mem_tail.op`. -/
def op : MemUop → MemOp
  | .chwb => .chwb | .chwbinv => .chwbinv | .chinv => .chinv
  | .sb => .sb | .sh => .sh | .sw | .swc1 => .sw | .sc => .sc | .swr => .swr | .swl => .swl
  | .lw | .lwc1 => .lw | .lwu => .lwu | .lwl => .lwl | .lwr => .lwr
  | .lb => .lb | .lbu => .lbu | .lhu => .lhu | .lh => .lh
  | .ld | .ldc1 => .ld | .sd | .sdc1 => .sd | .ldl => .ldl | .ldr => .ldr
  | .sdl => .sdl | .sdr => .sdr | .ll => .ll | .lld => .lld | .scd => .scd
  | .tlbp => .tlbp | .mtc1 | .mfc1 | .dmtc1 | .dmfc1 => .mov

/-- The moves between the register files, which carry their data as the address. -/
def moves : MemUop → Bool
  | .mtc1 | .mfc1 | .dmtc1 | .dmfc1 => true
  | _ => false

/-- `t_mem_tail.is_store`. -/
def isStore : MemUop → Bool
  | .chwb | .chwbinv | .chinv | .sb | .sh | .sw | .sc | .swr | .swl | .sd | .sdl | .sdr | .scd
  | .swc1 | .sdc1 => true
  | _ => false

/-- `t_mem_tail.is_atomic`. -/
def isAtomic : MemUop → Bool
  | .sc | .ll | .lld | .scd => true
  | _ => false

/-- How many low bits of the address must be zero. -/
def alignBits : MemUop → ℕ
  | .sh | .lh | .lhu => 1
  | .sw | .sc | .lw | .lwu | .ll | .lwc1 | .swc1 => 2
  | .ld | .sd | .lld | .scd | .ldc1 | .sdc1 => 3
  | _ => 0

/-- The operation makes an access: it is neither a move nor a TLB probe. -/
def accesses (u : MemUop) : Bool := !u.moves && u != .tlbp

end MemUop

/-- The registers of the address unit: the operation, its address (`w_agu`), what a move
carries, and what the scheduler says of the entry. -/
structure MemUq where
  op : MemUop
  agu : BitVec 64
  moved : BitVec 64
  lsuHold : Bool
  lsuIdx : ℕ
  color : Bool
  commit : Bool

/-- `t_mem_tail`: the request of an operation.  The drain of a retired store is never flagged,
and its address is in the store buffer. -/
def memTail (sr : BitVec 32) (regs : TlbRegs) (q : MemUq) : CoreReq :=
  let out := mipsseg sr (srHas sr srErl) q.agu
  let addr :=
    if q.commit then 0
    else if q.op.moves then q.moved
    else if q.op = .tlbp then regs.probeVa
    else out.lAddr
  { op := q.op.op
    line := addr.toNat / 16
    off := Fin.ofNat 16 addr.toNat
    data := 0
    isStore := q.commit || q.op.isStore
    commit := q.commit
    cached := q.commit || q.op.moves || out.cache
    mapped := !q.commit && !q.op.moves && (q.op == .tlbp || out.mapped)
    lsuHold := q.lsuHold
    isAtomic := q.op.isAtomic
    badAddr :=
      !q.commit && q.op.accesses && (q.agu.toNat % 2 ^ q.op.alignBits != 0 || out.badPerms)
    scOk := false
    restartId := q.color
    lsuIdx := q.lsuIdx }

theorem op_accesses {u : MemUop} (h : u.accesses = true) : u.op ≠ .mov ∧ u.op ≠ .tlbp := by
  revert h
  cases u <;> decide

/-- The request of a flagged access is flagged. -/
theorem memTail_flagged {sr : BitVec 32} {q : MemUq} (regs : TlbRegs)
    (hb : (mipsseg sr (srHas sr srErl) q.agu).badPerms = true) (hc : q.commit = false)
    (hu : q.op.accesses = true) : L1d.Flagged (memTail sr regs q) where
  badAddr := by
    show (!q.commit && q.op.accesses &&
      (_ || (mipsseg sr (srHas sr srErl) q.agu).badPerms)) = true
    rw [hc, hu, hb, Bool.or_true]
    rfl
  commit := hc
  op := op_accesses hu

/-! ## The law -/

/-- What the claim of containment says of one access, in the mode that Status selects. -/
structure Contained (sr : BitVec 32) (op : TlbOp) (vAddr : BitVec 64) : Prop where
  /-- An accepted user access is mapped and lies in the user segment. -/
  user : inUserMode sr = true → (accessSeg sr op vAddr).badPerms = false →
    (accessSeg sr op vAddr).mapped = true ∧ InUserSeg sr (accessSeg sr op vAddr).lAddr
  /-- An accepted supervisor access is mapped and lies in the user or supervisor segment. -/
  supervisor : inSupervisorMode sr = true → (accessSeg sr op vAddr).badPerms = false →
    (accessSeg sr op vAddr).mapped = true ∧
      (InUserSeg sr (accessSeg sr op vAddr).lAddr ∨
        InSupervisorSeg sr (accessSeg sr op vAddr).lAddr)
  /-- It is translated by an entry of its own region alone. -/
  region : inUserMode sr = true ∨ inSupervisorMode sr = true → ∀ (t : Rtl) (pa : BitVec 30),
    (t.access sr vAddr op).1 = .pa pa →
      (accessSeg sr op vAddr).badPerms = false ∧ (accessSeg sr op vAddr).mapped = true ∧
        ∃ i, t.search (accessSeg sr op vAddr).lAddr = some i ∧
          (t.tlb i).hit8k (accessSeg sr op vAddr).lAddr = true ∧
          (t.tlb i).r = (accessSeg sr op vAddr).lAddr.extractLsb' 62 2 ∧
          pa = ((t.tlb i).pa (accessSeg sr op vAddr).lAddr).setWidth 30
  /-- Two accepted user addresses within `SEGBITS` never match one page and offset. -/
  apart : ∀ (op' : TlbOp) (vAddr' : BitVec 64), inUserMode sr = true →
    (accessSeg sr op vAddr).badPerms = false → (accessSeg sr op' vAddr').badPerms = false →
    (accessSeg sr op vAddr).lAddr.toNat < 2 ^ 40 →
    (accessSeg sr op' vAddr').lAddr.toNat < 2 ^ 40 →
    (accessSeg sr op vAddr).lAddr ≠ (accessSeg sr op' vAddr').lAddr →
    ∀ e : TlbStored, e.hit8k (accessSeg sr op vAddr).lAddr = true →
      e.hit8k (accessSeg sr op' vAddr').lAddr = true →
      e.place (accessSeg sr op vAddr).lAddr ≠ e.place (accessSeg sr op' vAddr').lAddr
  /-- A flagged access is an address error, whatever the TLB holds. -/
  flagged : (accessSeg sr op vAddr).badPerms = true →
    ∀ t : Rtl, (t.access sr vAddr op).1 = .addressError

section Law

variable {sr : BitVec 32} {op : TlbOp} {vAddr : BitVec 64}

theorem contained_of_not_gap (hgap : ¬ InGap sr (effective sr vAddr)) :
    Contained sr op vAddr where
  user hu hb := by
    rw [accessSeg_of_unprivileged (.inl hu)] at hb ⊢
    exact user_contained hu hgap hb
  supervisor hs hb := by
    rw [accessSeg_of_unprivileged (.inr hs)] at hb ⊢
    exact supervisor_contained hs hgap hb
  region := by
    intro h t pa hpa
    have hb : (accessSeg sr op vAddr).badPerms = false := by
      by_contra hb
      rw [access_flagged (by simpa using hb)] at hpa
      cases hpa
    have hm : (accessSeg sr op vAddr).mapped = true := by
      rw [accessSeg_of_unprivileged h] at hb ⊢
      exact accepted_mapped h hb
    obtain ⟨-, hi⟩ := access_region hm hpa
    exact ⟨hb, hm, hi⟩
  apart := by
    intro op' vAddr' _ _ _ ha hb hne e hita hitb hp
    exact hne (place_injective (lt_segBits_iff.mp ha).2 (lt_segBits_iff.mp hb).2 hita hitb hp)
  flagged hb t := access_flagged hb

/-- An address of the gap breaks the containment of its mode. -/
theorem not_contained_of_gap (hgap : InGap sr (effective sr vAddr)) : ¬ Contained sr op vAddr := by
  intro h
  have hl : (mipsseg sr false vAddr).lAddr = effective sr vAddr := (gap_segment hgap).1
  have hb : (mipsseg sr false vAddr).badPerms = false := by
    have hacc := gap_accepted hgap
    rwa [effective_of_wide hgap.1] at hacc
  obtain ⟨hout, hout'⟩ := gap_outside hgap
  rcases hgap.2.2 with ⟨hu, -⟩ | ⟨hs, -⟩
  · have huser := h.user hu
    rw [accessSeg_of_unprivileged (.inl hu)] at huser
    have := (huser hb).2
    rw [hl] at this
    exact hout this
  · have hsup := h.supervisor hs
    rw [accessSeg_of_unprivileged (.inr hs)] at hsup
    have := (hsup hb).2
    rw [hl] at this
    exact this.elim hout hout'

theorem inGap_effective : InGap sr (effective sr vAddr) ↔ InGap sr vAddr := by
  constructor
  · intro h
    rwa [effective_of_wide h.1] at h
  · intro h
    rwa [effective_of_wide h.1]

end Law

/-- How a flagged access is delivered. -/
structure Delivered : Prop where
  /-- Decode makes an address error of a flagged fetch, before it looks at the TLB's answer. -/
  fetch : ∀ (sr : BitVec 32) (pc : BitVec 64), (accessSeg sr .fetch pc).badPerms = true →
    ∀ hit valid, fetchFault (fetchFlags sr pc hit valid) = some .fetchMisaligned ∨
      fetchFault (fetchFlags sr pc hit valid) = some .fetchAddrError
  /-- The instructions of a fetch group are flagged together, so the first one stands for the
  second. -/
  group : ∀ (sr : BitVec 32) (a b : BitVec 64), a.toNat / 16 = b.toNat / 16 →
    (accessSeg sr .fetch a).badPerms = (accessSeg sr .fetch b).badPerms
  /-- The address unit flags the request of a flagged access. -/
  request : ∀ (sr : BitVec 32) (regs : TlbRegs) (q : MemUq),
    (mipsseg sr (srHas sr srErl) q.agu).badPerms = true → q.commit = false →
    q.op.accesses = true → L1d.Flagged (memTail sr regs q)
  /-- In every run of the L1D, no flagged request gets past port 2, which answers it as an
  address error and touches nothing. -/
  answer : ∀ (g : Geometry) (tag : ℕ → ℕ) (data : ℕ → Line) (is : List L1d.Input) (i : L1d.Input),
    let s := Hw.run (fun s i => L1d.next g s i) (L1d.reset tag data) is
    L1d.Unflagged s ∧ (L1d.Flagged s.regs.req2 →
      L1d.faultRsp s i =
          some { line := s.regs.req2.line, off := s.regs.req2.off, badAddr := true } ∧
        (∀ (n : ℕ) [NeZero n] (v : L1d.LsuView n) (o : L1d.OlderSt n) (line : Line),
          L1d.reply2 g s i v o line = .noData) ∧
        (L1d.comb g s i).pushMiss = false ∧ (L1d.comb g s i).sbWr = false ∧
        ((L1d.comb g s i).n.req = s.regs.req ∨ ∃ e ∈ s.mq, (L1d.comb g s i).n.req = e.req))
  /-- The answer makes an address error of the access. -/
  complete : ∀ (e : Core.Entry) (r : Core.MemResult), e.uop.op = .other → e.uop.isMem = true →
    e.complete = false → r.badAddr = true →
    (e.memDone r).IsAddrError ∧ (e.memDone r).addr = r.data
  /-- In every run of the core the oldest operation, when it is an address error, is taken as
  an exception. -/
  taken : ∀ (p : Core.Params) (is : List Core.Input) (i : Core.Input),
    let s := Hw.run (Core.next p) Core.reset is
    ∀ e, s.regs.state = .active → i.stepOk = true → s.rob[0]? = some e → e.done = true →
      e.IsAddrError → (Core.next p s i).regs.state = .archFault
  /-- In every run of the core an address error leaves the reorder buffer only in
  `ARCH_FAULT`, which raises the exception. -/
  raised : ∀ (p : Core.Params) (is : List Core.Input) (i : Core.Input),
    let s := Hw.run (Core.next p) Core.reset is
    ∀ k e, s.rob[k]? = some e → e.IsAddrError → k < Core.leaving (Core.comb p s i) →
      s.regs.state = .archFault ∧ k = 0 ∧ Core.retiring s (Core.comb p s i) = [] ∧
        Core.Raised (Core.next p s i).regs e.addrErrorCode
          (if e.uop.op.isFetchFault then e.uop.pc else e.addr)
          (if e.inDelaySlot then e.uop.pc - 4 else e.uop.pc)
  /-- What is younger is dropped: nothing retires from then on until the reorder buffer has
  been cleared. -/
  squashed : ∀ (p : Core.Params) (is : List Core.Input) (i : Core.Input),
    let s := Hw.run (Core.next p) Core.reset is
    s.regs.state.squashes = true →
      Core.retiring s (Core.comb p s i) = [] ∧ Core.newEntries s i (Core.comb p s i) = [] ∧
        ((Core.next p s i).regs.state.squashes = true ∨ (Core.next p s i).regs.state = .rat)

theorem delivered : Delivered where
  fetch _ _ hb hit valid := fetchFault_flagged hb hit valid
  group sr a b h := (sameLine_of_div h).badPerms sr _
  request _ regs _ hb hc hu := memTail_flagged regs hb hc hu
  answer g tag data is i := by
    refine ⟨Hw.run_invariant (fun _ _ h => L1d.unflagged_next h) (L1d.unflagged_reset tag data) is,
      fun h => ⟨L1d.faultRsp_flagged h, fun n _ v o line => L1d.reply2_flagged h v o line, ?_⟩⟩
    exact L1d.flagged_touches_nothing h
  complete _ _ hop hm hc hb := Core.Entry.isAddrError_memDone hop hm hc hb
  taken p is _ _ hs hi he hd ha := Core.addrError_taken (Core.told_run p is) hs hi he hd ha
  raised p is _ _ _ he ha hk := Core.addrError_leaves (Core.told_run p is) he ha hk
  squashed p is _ hs := Core.squashed_next (Core.told_run p is).toSane hs

/-- **Containment.**  An access is contained exactly when its address is not in the gap of the
check of the range, and a flagged access is delivered as an address error. -/
theorem containment_iff (sr : BitVec 32) (op : TlbOp) (vAddr : BitVec 64) :
    (Contained sr op vAddr ↔ ¬ InGap sr vAddr) ∧ Delivered := by
  refine ⟨⟨?_, ?_⟩, delivered⟩
  · intro h hgap
    exact not_contained_of_gap (inGap_effective.mpr hgap) h
  · intro hgap
    exact contained_of_not_gap fun h => hgap (inGap_effective.mp h)

/-- In user mode with 64-bit addresses (KSU = 2, UX = 1) the address `0x3fffffff80000000` is
accepted and looked up in the TLB, far above the user segment. -/
theorem user_reaches_gap : inUserMode 0x30 = true ∧
    (accessSeg 0x30 .load 0x3fffffff80000000).badPerms = false ∧
    (accessSeg 0x30 .load 0x3fffffff80000000).mapped = true ∧
    ¬ InUserSeg 0x30 (accessSeg 0x30 .load 0x3fffffff80000000).lAddr ∧
    ¬ ∀ sr op vAddr, Contained sr op vAddr := by
  refine ⟨by decide, by decide, by decide, by decide, fun h => ?_⟩
  exact absurd ((h 0x30 .load 0x3fffffff80000000).user (by decide) (by decide)).2 (by decide)

end Mmu

end R9999
