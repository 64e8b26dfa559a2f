import R9999.L1d.Loads

/-!
# Uncached accesses of the L1D

An uncached access leaves the L1D as a line and a mask of its bytes (`uncachedReq`).  A
store's line is merged onto whatever line of the array happens to be at the index, so every
byte the mask wrongly enables carries unrelated data to memory or to a device; a load's mask
says which bytes are requested, and a device sees those it is asked for.

`UncachedLaw` is what the request should be.  `uncachedLaw_iff` shows that it is, except for
a store-conditional that has lost its reservation, which still sends the bytes of its word,
and for `LWU`, which `make_mask` does not list.
-/

namespace R9999.L1d

/-- What an uncached request sends.  A store changes the bytes it writes and no others, a
store-conditional without its reservation sends no byte, and a load asks for bytes of its
aligned access only. -/
structure UncachedLaw (r : CoreReq) (q : MemReq) : Prop where
  store : CoreReq.storeOp r.op = true → r.linked = true →
    ∀ mem, Line.merge q.mask q.storeData mem = Line.merge r.writes r.bytes mem
  failed : CoreReq.storeOp r.op = true → r.linked = false → q.mask = Mask.empty
  load : CoreReq.loadOp r.op = true → ∀ b, q.mask b = true → r.reads b = true

/-- An `LWU` whose word is not the last of its line. -/
def strayLwu (r : CoreReq) : Bool := r.op == .lwu && r.off.val != 12

section Masks

variable {r : CoreReq}

/-- The mask of a load other than `LWU` is within its aligned access. -/
theorem reads_of_makeMask (hl : CoreReq.loadOp r.op = true) (ha : r.LoadAligned)
    (hs : strayLwu r = false) {b : Fin 16} (hb : r.uncStMask b = true) : r.reads b = true := by
  have hb' := b.isLt
  cases ho : r.op <;> rw [ho] at hl <;> first | exact absurd hl (by decide) | skip
  all_goals
    simp only [CoreReq.LoadAligned, ho] at ha
    simp only [CoreReq.uncStMask, CoreReq.makeMask, ho, decide_eq_true_eq] at hb
    simp only [CoreReq.reads, CoreReq.InAccess, ho, decide_eq_true_eq]
    try omega
  case lwu =>
    have h12 : r.off.val = 12 := by simpa [strayLwu, ho] using hs
    omega

/-- A stray `LWU` asks for the byte after its word. -/
theorem exists_stray (ha : r.LoadAligned) (hs : strayLwu r = true) :
    ∃ b, r.uncStMask b = true ∧ r.reads b = false := by
  obtain ⟨ho, h12⟩ : r.op = .lwu ∧ r.off.val ≠ 12 := by simpa [strayLwu] using hs
  simp only [CoreReq.LoadAligned, ho] at ha
  have hlt := r.off.isLt
  refine ⟨⟨r.off.val + 4, by omega⟩, ?_, ?_⟩
  · simp only [CoreReq.uncStMask, CoreReq.makeMask, ho, decide_eq_true_eq]
    omega
  · simp only [CoreReq.reads, CoreReq.InAccess, ho, decide_eq_false_iff_not]
    omega

/-- Every store asks for a byte, with or without a reservation. -/
theorem uncStMask_off (hs : CoreReq.storeOp r.op = true) : r.uncStMask r.off = true := by
  cases ho : r.op <;> rw [ho] at hs <;> first | exact absurd hs (by decide) | skip
  all_goals simp [CoreReq.uncStMask, CoreReq.makeMask, ho]

end Masks

variable {g : Geometry} {s : L1d} {i : Input} {c : Comb}

/-- The request an uncached access sends when no copy of its line is resident. -/
theorem uncachedReq_memReq (hh : tagHit s.regs s.out = false) :
    (uncachedReq g s i c).n.memReq =
      { addr := s.regs.req.line, idx := s.regs.reqIdx
        storeData := s.regs.req.storeLine (tData s.regs s.out i)
        opcode := if s.regs.req.isStore then .sw else .lw, cacheable := false
        mask := s.regs.req.uncStMask } := by
  simp only [uncachedReq, hh, Bool.false_eq_true, if_false]
  rfl

/-- **The uncached mask law.**  A naturally aligned uncached access obeys it exactly when it
is neither a store-conditional that lost its reservation nor a stray `LWU`. -/
theorem uncachedLaw_iff (hh : tagHit s.regs s.out = false) (ha : s.regs.req.Aligned)
    (hla : s.regs.req.LoadAligned) :
    UncachedLaw s.regs.req (uncachedReq g s i c).n.memReq ↔
      s.regs.req.linked = true ∧ strayLwu s.regs.req = false := by
  rw [uncachedReq_memReq hh]
  constructor
  · intro h
    refine ⟨?_, ?_⟩
    · by_contra hl
      have hst : CoreReq.storeOp s.regs.req.op = true := by
        rw [CoreReq.linked] at hl
        cases ho : s.regs.req.op <;> simp_all [CoreReq.storeOp]
      have hm := congrFun (h.failed hst (by simpa using hl)) s.regs.req.off
      exact Bool.false_ne_true (hm.symm.trans (uncStMask_off hst))
    · by_contra hl
      have hs : strayLwu s.regs.req = true := by simpa using hl
      obtain ⟨b, hb, hr⟩ := exists_stray hla hs
      have hop : CoreReq.loadOp s.regs.req.op = true := by
        rw [eq_of_beq (Bool.and_eq_true_iff.mp hs).1]
        rfl
      exact Bool.false_ne_true (hr.symm.trans (h.load hop b hb))
  · rintro ⟨hl, hs⟩
    refine ⟨fun hst _ mem => ?_, fun _ hf => ?_, fun hop b hb => reads_of_makeMask hop hla hs hb⟩
    · funext b
      simp only [Line.merge, s.regs.req.uncStMask_eq_writes hst ha hl,
        s.regs.req.storeLine_eq_merge _ hst]
      split <;> rfl
    · exact absurd (hl.symm.trans hf) (by decide)

section Examples

/-- The smallest caches. -/
def tinyGeometry : Geometry := ⟨1, 1, 1, 0, Nat.one_pos, Nat.one_pos, Nat.one_pos⟩

/-- The L1D out of reset with a request on port 1. -/
def holding (r : CoreReq) : L1d :=
  { reset (fun _ => 0) (fun _ => Line.zero) with regs := { resetRegs with req := r } }

/-- The request the L1D then sends. -/
def sends (r : CoreReq) : MemReq :=
  (uncachedReq tinyGeometry (holding r) idleInput
    ⟨resetRegs, false, false, false, false, false, false, false⟩).n.memReq

/-- An `SDR` to the third byte of a doubleword obeys the law. -/
theorem uncachedLaw_sdr :
    UncachedLaw { blankReq with op := .sdr, off := 2, isStore := true }
      (sends { blankReq with op := .sdr, off := 2, isStore := true }) :=
  (uncachedLaw_iff (s := holding { blankReq with op := .sdr, off := 2, isStore := true }) rfl
    (by decide) (by decide)).2 ⟨rfl, rfl⟩

/-- A store-conditional that has lost its reservation sends the word of an unrelated line. -/
theorem uncachedLaw_failedSc :
    ¬ ∀ (g : Geometry) (s : L1d) (i : Input) (c : Comb), tagHit s.regs s.out = false →
      s.regs.req.Aligned → s.regs.req.LoadAligned →
      UncachedLaw s.regs.req (uncachedReq g s i c).n.memReq := by
  intro h
  have hc := (h tinyGeometry (holding { blankReq with op := .sc, isStore := true }) idleInput
    ⟨resetRegs, false, false, false, false, false, false, false⟩ rfl (by decide)
    (by decide)).failed rfl rfl
  rw [uncachedReq_memReq rfl] at hc
  exact Bool.false_ne_true (congrFun hc 0).symm

end Examples

end R9999.L1d
