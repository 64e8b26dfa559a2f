import R9999.Mmu.Segment
import R9999.Mmu.Translation

/-!
# Containment of the unprivileged modes

A user access that `mipsseg` accepts is mapped, and its address lies in the user segment; a
supervisor access lies in the user or the supervisor segment.  The check of the range
(`w_va_oor`) exempts every address whose bits 61 to 31 are ones, whatever its region is, and
not only the sign-extended addresses of 32 bits that it is meant to exempt: `InGap` names the
addresses that slip through.
-/

namespace R9999

namespace Mmu

open Iss (numTlbEntries TlbOp srErl)

/-- `mipsseg` at an access: the I-side is not told of Status.ERL. -/
def accessSeg (sr : BitVec 32) (op : TlbOp) (vAddr : BitVec 64) : Seg :=
  mipsseg sr (srHas sr srErl && op != .fetch) vAddr

/-! ## The segments of the two modes -/

/-- The user segment: the lower half of the 32-bit addresses, or region 0 up to `SEGBITS`. -/
def InUserSeg (sr : BitVec 32) (va : BitVec 64) : Prop :=
  if in64bMode sr then va.toNat < 2 ^ 40 else va.toNat < 2 ^ 31

/-- The supervisor segment: `0xc0000000` to `0xdfffffff` sign-extended and, with 64-bit
addresses, region 1 up to `SEGBITS`. -/
def InSupervisorSeg (sr : BitVec 32) (va : BitVec 64) : Prop :=
  (va.extractLsb' 32 32 = 0xffffffff ∧ va.extractLsb' 29 3 = 6) ∨
    (in64bMode sr = true ∧ va.extractLsb' 62 2 = 1 ∧ va.extractLsb' 40 22 = 0)

instance (sr : BitVec 32) (va : BitVec 64) : Decidable (InUserSeg sr va) :=
  inferInstanceAs
    (Decidable (if in64bMode sr then va.toNat < 2 ^ 40 else va.toNat < 2 ^ 31))

/-- A 64-bit address that the check of the range lets through although it is out of the
range of its region. -/
def InGap (sr : BitVec 32) (va : BitVec 64) : Prop :=
  in64bMode sr = true ∧ va.extractLsb' 31 31 = BitVec.allOnes 31 ∧
    (inUserMode sr = true ∧ va.extractLsb' 62 2 = 0 ∨
      inSupervisorMode sr = true ∧ (va.extractLsb' 62 2 = 0 ∨ va.extractLsb' 62 2 = 1))

instance (sr : BitVec 32) (va : BitVec 64) : Decidable (InGap sr va) :=
  inferInstanceAs (Decidable (_ ∧ _))

/-- The page of an entry and the offset in it that an address selects. -/
def TlbStored.place (e : TlbStored) (va : BitVec 64) : Bool × Nat :=
  (va.getLsbD (12 + 2 * e.pgsz), va.toNat % 2 ^ (12 + 2 * e.pgsz))

section Modes

variable {sr : BitVec 32} {va : BitVec 64}

/-- The user and the supervisor mode need Status.ERL clear. -/
theorem erl_of_unprivileged (h : inUserMode sr = true ∨ inSupervisorMode sr = true) :
    srHas sr srErl = false := by
  rcases h with h | h
  · simp only [inUserMode, Bool.and_eq_true, Bool.not_eq_true'] at h
    exact h.2
  · simp only [inSupervisorMode, Bool.and_eq_true, Bool.not_eq_true'] at h
    exact h.2

theorem supervisor_not_user (h : inSupervisorMode sr = true) : inUserMode sr = false := by
  simp only [inSupervisorMode, Bool.and_eq_true, beq_iff_eq] at h
  simp [inUserMode, h.1.1]

theorem accessSeg_of_unprivileged (h : inUserMode sr = true ∨ inSupervisorMode sr = true)
    (op : TlbOp) (vAddr : BitVec 64) : accessSeg sr op vAddr = mipsseg sr false vAddr := by
  rw [accessSeg, erl_of_unprivileged h, Bool.false_and]

/-! ## Fields of an address -/

theorem toNat_field (va : BitVec 64) (lo n : Nat) :
    (va.extractLsb' lo n).toNat = va.toNat / 2 ^ lo % 2 ^ n := by
  rw [BitVec.extractLsb'_toNat, Nat.shiftRight_eq_div_pow]

theorem lt_segBits_iff :
    va.toNat < 2 ^ 40 ↔ va.extractLsb' 62 2 = 0 ∧ va.extractLsb' 40 22 = 0 := by
  rw [← BitVec.toNat_inj, ← BitVec.toNat_inj, toNat_field, toNat_field]
  have hlt := va.isLt
  constructor
  · intro h
    constructor
    · show va.toNat / 2 ^ 62 % 2 ^ 2 = 0
      omega
    · show va.toNat / 2 ^ 40 % 2 ^ 22 = 0
      omega
  · rintro ⟨hregion, hrange⟩
    change va.toNat / 2 ^ 62 % 2 ^ 2 = 0 at hregion
    change va.toNat / 2 ^ 40 % 2 ^ 22 = 0 at hrange
    omega

/-- An address whose bits 61 to 31 are ones is not in the range of its region. -/
theorem range_of_ones (h : va.extractLsb' 31 31 = BitVec.allOnes 31) :
    va.extractLsb' 40 22 ≠ 0 := by
  intro hz
  rw [← BitVec.toNat_inj, toNat_field] at h hz
  change va.toNat / 2 ^ 31 % 2 ^ 31 = 2 ^ 31 - 1 at h
  change va.toNat / 2 ^ 40 % 2 ^ 22 = 0 at hz
  omega

theorem vaOor_eq_false (h64 : in64bMode sr = true) :
    vaOor sr va = false ↔
      va.extractLsb' 31 31 = BitVec.allOnes 31 ∨ va.extractLsb' 40 22 = 0 := by
  rw [vaOor, h64, Bool.true_and, Bool.and_eq_false_iff, bne_eq_false_iff_eq, bne_eq_false_iff_eq]

/-- The user half of the 32-bit form is out of the range of its region. -/
theorem compat_user_oor (h64 : in64bMode sr = true) (hhi : va.extractLsb' 32 32 = 0xffffffff)
    (hsign : va.getLsbD 31 = false) : vaOor sr va = true := by
  by_contra hoor
  rcases (vaOor_eq_false h64).mp (by simpa using hoor) with hones | hrange
  · have hbit := congrArg (BitVec.getLsbD · 0) hones
    change (va.extractLsb' 31 31).getLsbD 0 = true at hbit
    rw [BitVec.getLsbD_extractLsb', hsign, Bool.and_false] at hbit
    cases hbit
  · rw [← BitVec.toNat_inj, toNat_field] at hhi hrange
    change va.toNat / 2 ^ 32 % 2 ^ 32 = 2 ^ 32 - 1 at hhi
    change va.toNat / 2 ^ 40 % 2 ^ 22 = 0 at hrange
    omega

/-! ## The segments of `mipsseg` -/

/-- The address has the 32-bit form, or its mode has no other. -/
abbrev Compat (sr : BitVec 32) (va : BitVec 64) : Prop :=
  in64bMode sr = false ∨ va.extractLsb' 32 32 = 0xffffffff

/-- The segments that the decoder tells apart, with what it says of each. -/
inductive SegCase (sr : BitVec 32) (erl : Bool) (va : BitVec 64) (out : Seg) : Prop where
  | xkphys (h64 : in64bMode sr = true) (hr : va.extractLsb' 62 2 = 2)
      (hm : out.mapped = false) (hs : out.seg = 0)
  | kuseg (hc : Compat sr va) (hsign : va.getLsbD 31 = false) (ha : out.lAddr = va)
      (hm : out.mapped = !erl) (hs : out.seg = 3)
  | unmapped (hc : Compat sr va) (hk : va.extractLsb' 29 3 ≠ 6) (hm : out.mapped = false)
      (hs : out.seg ≠ 3)
  | kseg2 (hc : Compat sr va) (hsign : va.getLsbD 31 = true) (ha : out.lAddr = va)
      (hm : out.mapped = true) (hs : out.seg = 2)
  | xkuseg (h64 : in64bMode sr = true) (hc : ¬ Compat sr va) (hr : va.extractLsb' 62 2 = 0)
      (ha : out.lAddr = va) (hm : out.mapped = true) (hs : out.seg = 3)
  | xkseg (h64 : in64bMode sr = true) (hc : ¬ Compat sr va) (hr : va.extractLsb' 62 2 ≠ 0)
      (ha : out.lAddr = va) (hm : out.mapped = true) (hs : out.seg = 2)

theorem segment_cases (sr : BitVec 32) (erl : Bool) (va : BitVec 64) :
    SegCase sr erl va (segment sr erl va) := by
  rw [segment]
  split_ifs with hx hc hsign h4 h5 hr
  · exact .xkphys hx.1 hx.2 rfl rfl
  · exact .kuseg hc hsign rfl rfl rfl
  · exact .unmapped hc (by rw [h4]; decide) rfl (by decide : (0 : BitVec 2) ≠ 3)
  · exact .unmapped hc (by rw [h5]; decide) rfl (by decide : (1 : BitVec 2) ≠ 3)
  · exact .kseg2 hc (by simpa using hsign) rfl rfl rfl
  · exact .xkuseg (by simpa using (not_or.mp hc).1) hc hr rfl rfl rfl
  · exact .xkseg (by simpa using (not_or.mp hc).1) hc hr rfl rfl rfl

theorem user_badPerms (h : inUserMode sr = true) (erl : Bool) (vAddr : BitVec 64) :
    (mipsseg sr erl vAddr).badPerms = false ↔
      (segment sr erl (effective sr vAddr)).seg = 3 ∧
        ((segment sr erl (effective sr vAddr)).mapped = true →
          vaOor sr (effective sr vAddr) = false) := by
  simp only [mipsseg, h, if_true, Bool.or_eq_false_iff, bne_eq_false_iff_eq,
    Bool.and_eq_false_imp]

theorem supervisor_badPerms (h : inSupervisorMode sr = true) (erl : Bool) (vAddr : BitVec 64) :
    (mipsseg sr erl vAddr).badPerms = false ↔
      ((segment sr erl (effective sr vAddr)).seg = 3 ∨ isSseg sr (effective sr vAddr) = true) ∧
        ((segment sr erl (effective sr vAddr)).mapped = true →
          vaOor sr (effective sr vAddr) = false) := by
  simp only [mipsseg, supervisor_not_user h, h, if_true, Bool.false_eq_true, if_false,
    Bool.or_eq_false_iff, Bool.not_eq_false', Bool.or_eq_true, beq_iff_eq, Bool.and_eq_false_imp]

theorem isSseg_of_compat (hc : Compat sr va) :
    isSseg sr va = true ↔ va.extractLsb' 29 3 = 6 := by
  rw [isSseg, if_pos hc, beq_iff_eq]

theorem isSseg_of_wide (hc : ¬ Compat sr va) : isSseg sr va = true ↔ va.extractLsb' 62 2 = 1 := by
  rw [isSseg, if_neg hc, beq_iff_eq]

/-- Among the 64-bit addresses only region 3 has the 32-bit form. -/
theorem region_of_compat (h64 : in64bMode sr = true) (hc : Compat sr va) :
    va.extractLsb' 62 2 = 3 := by
  have hhi := hc.resolve_left (by simp [h64])
  rw [region_of_hi32, hhi]
  decide

/-- The bits 61 to 31 are ones in the 32-bit form of region 3 alone. -/
theorem wide_of_region (h64 : in64bMode sr = true) (hr : va.extractLsb' 62 2 ≠ 3) :
    ¬ Compat sr va := fun hc => hr (region_of_compat h64 hc)

/-- A user address of a 32-bit mode. -/
theorem lt_of_compat (hhi : va.extractLsb' 32 32 = 0) (hsign : va.getLsbD 31 = false) :
    va.toNat < 2 ^ 31 := by
  rw [← BitVec.toNat_inj, toNat_field] at hhi
  change va.toNat / 2 ^ 32 % 2 ^ 32 = 0 at hhi
  change va.toNat.testBit 31 = false at hsign
  rw [Nat.testBit_eq_decide_div_mod_eq, decide_eq_false_iff_not] at hsign
  have hlt := va.isLt
  omega

/-! ## What the two modes accept -/

/-- A mapped address of the user segment that passes the check of the range lies in the
segment, outside the gap. -/
theorem SegCase.user {out : Seg} (h : SegCase sr false va out) (hs : out.seg = 3)
    (hoor : out.mapped = true → vaOor sr va = false)
    (hform : in64bMode sr = false →
      va.extractLsb' 32 32 = if va.getLsbD 31 then 0xffffffff else 0)
    (hgap : ¬ (in64bMode sr = true ∧ va.extractLsb' 31 31 = BitVec.allOnes 31 ∧
      va.extractLsb' 62 2 = 0)) : out.mapped = true ∧ InUserSeg sr out.lAddr := by
  cases h with
  | xkphys _ _ _ h0 => exact absurd (h0.symm.trans hs) (by decide)
  | unmapped _ _ _ h3 => exact absurd hs h3
  | kseg2 _ _ _ _ h2 => exact absurd (h2.symm.trans hs) (by decide)
  | xkseg _ _ _ _ _ h2 => exact absurd (h2.symm.trans hs) (by decide)
  | kuseg hc hsign ha hm _ =>
    refine ⟨hm, ?_⟩
    rw [InUserSeg, ha]
    by_cases h64 : in64bMode sr = true
    · -- The address falls into the user arm; only the check of the range can reject it.
      have hhi := hc.resolve_left (by simp [h64])
      have := hoor hm
      rw [compat_user_oor h64 hhi hsign] at this
      cases this
    · rw [if_neg h64]
      have hhi := hform (by simpa using h64)
      rw [hsign, if_neg Bool.false_ne_true] at hhi
      exact lt_of_compat hhi hsign
  | xkuseg h64 _ hr ha hm _ =>
    refine ⟨hm, ?_⟩
    rw [InUserSeg, if_pos h64, ha]
    rcases (vaOor_eq_false h64).mp (hoor hm) with hones | hrange
    · exact absurd ⟨h64, hones, hr⟩ hgap
    · exact lt_segBits_iff.mpr ⟨hr, hrange⟩

/-- So does a mapped address that the supervisor segment accepts. -/
theorem SegCase.supervisor {out : Seg} (h : SegCase sr false va out)
    (hs : out.seg = 3 ∨ isSseg sr va = true) (hoor : out.mapped = true → vaOor sr va = false)
    (hform : in64bMode sr = false →
      va.extractLsb' 32 32 = if va.getLsbD 31 then 0xffffffff else 0)
    (hgap : ¬ (in64bMode sr = true ∧ va.extractLsb' 31 31 = BitVec.allOnes 31 ∧
      (va.extractLsb' 62 2 = 0 ∨ va.extractLsb' 62 2 = 1))) :
    out.mapped = true ∧ (InUserSeg sr out.lAddr ∨ InSupervisorSeg sr out.lAddr) := by
  rcases hs with h3 | hsseg
  · obtain ⟨hm, huser⟩ := h.user h3 hoor hform fun ⟨a, b, c⟩ => hgap ⟨a, b, .inl c⟩
    exact ⟨hm, .inl huser⟩
  cases h with
  | xkphys h64 hr =>
    have hc := wide_of_region h64 (by rw [hr]; decide)
    have h1 := (isSseg_of_wide hc).mp hsseg
    exact absurd (hr.symm.trans h1) (by decide)
  | kuseg hc hsign =>
    have h6 := (isSseg_of_compat hc).mp hsseg
    rw [sign_of_kseg, h6] at hsign
    cases hsign
  | unmapped hc hk => exact absurd ((isSseg_of_compat hc).mp hsseg) hk
  | kseg2 hc hsign ha hm _ =>
    refine ⟨hm, .inr (.inl ?_)⟩
    rw [ha]
    refine ⟨?_, (isSseg_of_compat hc).mp hsseg⟩
    rcases hc with h32 | hhi
    · rw [hform h32, hsign, if_pos rfl]
    · exact hhi
  | xkuseg _ hc hr =>
    have h1 := (isSseg_of_wide hc).mp hsseg
    exact absurd (hr.symm.trans h1) (by decide)
  | xkseg h64 hc _ ha hm _ =>
    have h1 := (isSseg_of_wide hc).mp hsseg
    refine ⟨hm, .inr (.inr ?_)⟩
    rw [ha]
    rcases (vaOor_eq_false h64).mp (hoor hm) with hones | hrange
    · exact absurd ⟨h64, hones, .inr h1⟩ hgap
    · exact ⟨h64, h1, hrange⟩

/-- With 64-bit addresses nothing is cut off. -/
theorem effective_of_wide (h64 : in64bMode sr = true) (vAddr : BitVec 64) :
    effective sr vAddr = vAddr := by rw [effective, if_pos h64]

/-- A user access outside the gap is contained. -/
theorem user_contained (h : inUserMode sr = true) {vAddr : BitVec 64}
    (hgap : ¬ InGap sr (effective sr vAddr)) (hb : (mipsseg sr false vAddr).badPerms = false) :
    (mipsseg sr false vAddr).mapped = true ∧ InUserSeg sr (mipsseg sr false vAddr).lAddr := by
  obtain ⟨hs, hoor⟩ := (user_badPerms h false vAddr).mp hb
  exact (segment_cases sr false _).user hs hoor (effective_form sr vAddr)
    fun ⟨a, b, c⟩ => hgap ⟨a, b, .inl ⟨h, c⟩⟩

/-- A supervisor access outside the gap is contained. -/
theorem supervisor_contained (h : inSupervisorMode sr = true) {vAddr : BitVec 64}
    (hgap : ¬ InGap sr (effective sr vAddr)) (hb : (mipsseg sr false vAddr).badPerms = false) :
    (mipsseg sr false vAddr).mapped = true ∧
      (InUserSeg sr (mipsseg sr false vAddr).lAddr ∨
        InSupervisorSeg sr (mipsseg sr false vAddr).lAddr) := by
  obtain ⟨hs, hoor⟩ := (supervisor_badPerms h false vAddr).mp hb
  exact (segment_cases sr false _).supervisor hs hoor (effective_form sr vAddr)
    fun ⟨a, b, c⟩ => hgap ⟨a, b, .inr ⟨h, c⟩⟩

/-! ## The gap -/

/-- An address of the gap is mapped as it is. -/
theorem gap_segment (h : InGap sr va) :
    (segment sr false va).lAddr = va ∧ (segment sr false va).mapped = true ∧
      (segment sr false va).seg = if va.extractLsb' 62 2 = 0 then 3 else 2 := by
  obtain ⟨h64, -, hr⟩ := h
  have hr : va.extractLsb' 62 2 = 0 ∨ va.extractLsb' 62 2 = 1 := by
    rcases hr with ⟨-, h0⟩ | ⟨-, h01⟩
    · exact .inl h0
    · exact h01
  have hx : ¬ (in64bMode sr = true ∧ va.extractLsb' 62 2 = 2) := by
    rintro ⟨-, h2⟩
    rw [h2] at hr
    exact absurd hr (by decide)
  have hc : ¬ Compat sr va := by
    refine wide_of_region h64 ?_
    intro h3
    rw [h3] at hr
    exact absurd hr (by decide)
  rw [segment, if_neg hx, if_neg hc]
  split_ifs <;> exact ⟨rfl, rfl, rfl⟩

/-- No address of the gap is flagged. -/
theorem gap_accepted (h : InGap sr va) : (mipsseg sr false va).badPerms = false := by
  obtain ⟨-, -, hs⟩ := gap_segment h
  obtain ⟨h64, hones, hmode⟩ := h
  have hoor : vaOor sr va = false := (vaOor_eq_false h64).mpr (.inl hones)
  rcases hmode with ⟨hu, h0⟩ | ⟨hsup, hr⟩
  · rw [user_badPerms hu, effective_of_wide h64, hs, if_pos h0]
    exact ⟨rfl, fun _ => hoor⟩
  · rw [supervisor_badPerms hsup, effective_of_wide h64, hs]
    refine ⟨?_, fun _ => hoor⟩
    rcases hr with h0 | h1
    · exact .inl (if_pos h0)
    · refine .inr ((isSseg_of_wide (wide_of_region h64 ?_)).mpr h1)
      rw [h1]
      decide

/-- It lies in neither of the two segments. -/
theorem gap_outside (h : InGap sr va) : ¬ InUserSeg sr va ∧ ¬ InSupervisorSeg sr va := by
  obtain ⟨h64, hones, hmode⟩ := h
  have hrange := range_of_ones hones
  have hr : va.extractLsb' 62 2 ≠ 3 := by
    rcases hmode with ⟨-, h0⟩ | ⟨-, h0 | h1⟩
    · rw [h0]; decide
    · rw [h0]; decide
    · rw [h1]; decide
  constructor
  · rw [InUserSeg, if_pos h64]
    exact fun hlt => hrange (lt_segBits_iff.mp hlt).2
  · rintro (⟨hhi, -⟩ | ⟨-, -, hz⟩)
    · exact wide_of_region h64 hr (.inr hhi)
    · exact hrange hz

/-- Every access that an unprivileged mode makes unflagged is mapped. -/
theorem accepted_mapped (h : inUserMode sr = true ∨ inSupervisorMode sr = true)
    {vAddr : BitVec 64} (hb : (mipsseg sr false vAddr).badPerms = false) :
    (mipsseg sr false vAddr).mapped = true := by
  by_cases hgap : InGap sr (effective sr vAddr)
  · exact (gap_segment hgap).2.1
  rcases h with hu | hsup
  · exact (user_contained hu hgap hb).1
  · exact (supervisor_contained hsup hgap hb).1

end Modes

/-! ## The TLB -/

section Tlb

variable {e : TlbStored} {a b : BitVec 64}

/-- The bits that the mask of an entry takes out of the comparison select the page or are in
the offset. -/
theorem mask_covered (e : TlbStored) {k : ℕ} (hk : k < 12) (h : e.pagemask.getLsbD k = true) :
    13 + k ≤ 12 + 2 * e.pgsz := by
  unfold TlbStored.pgsz
  split_ifs with h0 h1 h2 h3 h4 h5
  · rw [h0] at h
    simp at h
  · rw [h1] at h
    revert k
    decide
  · rw [h2] at h
    revert k
    decide
  · rw [h3] at h
    revert k
    decide
  · rw [h4] at h
    revert k
    decide
  · rw [h5] at h
    revert k
    decide
  · omega

/-- **Two addresses in the range of their regions that hit one entry differ in the page or in
the offset.** -/
theorem place_injective (ha : a.extractLsb' 40 22 = 0) (hb : b.extractLsb' 40 22 = 0)
    (hita : e.hit8k a = true) (hitb : e.hit8k b = true) (hp : e.place a = e.place b) : a = b := by
  have fits {va : BitVec 64} (h : e.hit8k va = true) : e.Fits va e.asid := by
    rw [fits_iff, h]
    simp [TlbStored.addrSpaceMatch]
  have hfa := fits hita
  have hfb := fits hitb
  have range {va : BitVec 64} (h : va.extractLsb' 40 22 = 0) {k : ℕ} (h40 : 40 ≤ k)
      (h62 : k < 62) : va.getLsbD k = false := by
    have hbit := congrArg (BitVec.getLsbD · (k - 40)) h
    have hlt : k - 40 < 22 := by omega
    have hadd : 40 + (k - 40) = k := by omega
    simpa [hlt, hadd] using hbit
  obtain ⟨hodd, hoff⟩ := Prod.mk.inj hp
  apply BitVec.eq_of_getLsbD_eq
  intro k hk
  rcases Nat.lt_trichotomy k (12 + 2 * e.pgsz) with hlt | heq | hgt
  · -- The offset.
    have hbit := congrArg (Nat.testBit · k) hoff
    simpa [Nat.testBit_mod_two_pow, hlt, BitVec.getLsbD] using hbit
  · rw [heq]
    exact hodd
  · -- The page number: what the mask takes out is below.
    rcases Nat.lt_or_ge k 40 with h40 | h40
    · have hadd : 13 + (k - 13) = k := by omega
      have hmask : k - 13 < 12 → e.pagemask.getLsbD (k - 13) = false := by
        intro h12
        by_contra hm
        have := mask_covered e h12 (by simpa using hm)
        omega
      have hva := hfa.vpn (k - 13) (by omega) hmask
      have hvb := hfb.vpn (k - 13) (by omega) hmask
      rw [hadd] at hva hvb
      rw [← hva, hvb]
    · rcases Nat.lt_or_ge k 62 with h62 | h62
      · rw [range ha h40 h62, range hb h40 h62]
      · have hr := congrArg (BitVec.getLsbD · (k - 62)) (hfa.region.symm.trans hfb.region)
        have hlt : k - 62 < 2 := by omega
        have hadd : 62 + (k - 62) = k := by omega
        simpa [hlt, hadd] using hr

variable {t : Rtl} {sr : BitVec 32} {op : TlbOp} {vAddr : BitVec 64}

/-- A flagged access is an address error, whatever the TLB holds. -/
theorem access_flagged (hb : (accessSeg sr op vAddr).badPerms = true) :
    (t.access sr vAddr op).1 = .addressError := by
  change (mipsseg sr (srHas sr srErl && op != .fetch) vAddr).badPerms = true at hb
  simp only [Rtl.access, hb, if_true]

/-- A mapped access that gets a physical address has it from an entry of its own region. -/
theorem access_region {pa : BitVec 30} (hm : (accessSeg sr op vAddr).mapped = true)
    (h : (t.access sr vAddr op).1 = .pa pa) :
    (accessSeg sr op vAddr).badPerms = false ∧
      ∃ i, t.search (accessSeg sr op vAddr).lAddr = some i ∧
        (t.tlb i).hit8k (accessSeg sr op vAddr).lAddr = true ∧
        (t.tlb i).r = (accessSeg sr op vAddr).lAddr.extractLsb' 62 2 ∧
        pa = ((t.tlb i).pa (accessSeg sr op vAddr).lAddr).setWidth 30 := by
  have hb : (accessSeg sr op vAddr).badPerms = false := by
    by_contra hb
    rw [access_flagged (by simpa using hb)] at h
    cases h
  refine ⟨hb, ?_⟩
  change (mipsseg sr (srHas sr srErl && op != .fetch) vAddr).badPerms = false at hb
  change (mipsseg sr (srHas sr srErl && op != .fetch) vAddr).mapped = true at hm
  simp only [Rtl.access, hb, hm, Bool.false_eq_true, Bool.true_eq_false, if_false] at h
  change (t.lookup sr (accessSeg sr op vAddr).lAddr _ op).1 = .pa pa at h
  rw [Rtl.lookup] at h
  cases hs : t.search (accessSeg sr op vAddr).lAddr with
  | none =>
    rw [hs] at h
    cases h
  | some i =>
    have hhit := List.find?_some hs
    rw [Rtl.hits, Bool.and_eq_true, Bool.and_eq_true] at hhit
    have hr := hhit.1.2
    rw [TlbStored.hit8k, Bool.and_eq_true, beq_iff_eq, beq_iff_eq] at hr
    refine ⟨i, rfl, hhit.1.2, hr.2, ?_⟩
    rw [hs] at h
    dsimp only at h
    split at h
    · cases h
    split at h
    · cases h
    · exact (Access.pa.inj h).symm

end Tlb

end Mmu

end R9999
