import R9999.Core.Rename

/-!
# Rename conservation

In every run each physical register is owned once: it is on the free list, or the retire
map has it, or one entry in flight has it as its destination.  The entries in flight are
those of the reorder buffer and, until the maps are copied, the faulting entry that
`ARCH_FAULT` has removed from it.
-/

namespace R9999

namespace Core

open Hw (Rename Maps Owned replay)

/-! ## The law of a register file -/

/-- What retires are the oldest renames in flight. -/
theorem retire_prefix {A P : Type} {d : Kind A P} {p : Params} {s : State} {j : Input} (n n2 : P)
    (hd : d.Ok) (hok : RobOk s) (hf : Fits s) {g : List Entry}
    (hq : g ≠ [] → s.regs.state ≠ .active ∧ s.regs.state ≠ .drain) :
    ∃ rest, d.inflight (g ++ s.rob) = (d.turn n n2 s (comb p s j)).retire ++ rest := by
  obtain ⟨-, hret⟩ | ⟨-, hs, hret⟩ := turn_retire (p := p) (j := j) n n2 hd hok hf
  · exact ⟨_, by rw [hret, List.nil_append]⟩
  · have hnil : g = [] := by
      by_contra hne
      obtain ⟨hna, hnd⟩ := hq hne
      exact hs.elim hna hnd
    exact ⟨_, by rw [hnil, List.nil_append, hret]⟩

section Law

variable {A P : Type} (d : Kind A P)

/-- The destination of the entry has the name `n`. -/
def Kind.Holds (n : P) (e : Entry) : Prop :=
  d.dst e.uop.toUopFields ≠ none ∧ d.reg e.tag.pdst = n

/-- Exactly one of the entries has the name `n`. -/
def Kind.HeldOnce (q : List Entry) (n : P) : Prop :=
  ∃ k e, q[k]? = some e ∧ d.Holds n e ∧
    ∀ (k' : Nat) (e' : Entry), q[k']? = some e' → d.Holds n e' → k' = k

/-- The name `n` is free, or mapped, or the name of exactly one entry. -/
def Kind.Once (m : Maps A P) (q : List Entry) (n : P) : Prop :=
  (m.free n = true ∧ (∀ a, m.retireRat a ≠ n) ∧ ∀ e ∈ q, ¬ d.Holds n e) ∨
    (m.free n = false ∧ (∃ a, m.retireRat a = n) ∧ ∀ e ∈ q, ¬ d.Holds n e) ∨
    (m.free n = false ∧ (∀ a, m.retireRat a ≠ n) ∧ d.HeldOnce q n)

variable {d} {m : Maps A P} {q : List Entry}

theorem holds_iff {n : P} {e : Entry} :
    d.Holds n e ↔ ∃ r, d.rename d.dst e = some r ∧ r.new = n := by
  unfold Kind.Holds Kind.rename
  cases d.dst e.uop.toUopFields with
  | none => simp
  | some a => simp

theorem mem_inflight {r : Rename A P} :
    r ∈ d.inflight q ↔ ∃ e ∈ q, d.rename d.dst e = some r := List.mem_filterMap

/-- Two entries in flight do not have the same name. -/
theorem held_once (hnodup : ((d.inflight q).map Rename.new).Nodup) {k k' : Nat} {e e' : Entry}
    {n : P} (hk : q[k]? = some e) (hk' : q[k']? = some e') (he : d.Holds n e)
    (he' : d.Holds n e') : k' = k := by
  obtain ⟨r, hr, hn⟩ := holds_iff.mp he
  obtain ⟨r', hr', hn'⟩ := holds_iff.mp he'
  rw [List.nodup_iff_pairwise_ne, List.pairwise_map, Kind.inflight, List.pairwise_filterMap,
    List.pairwise_iff_getElem] at hnodup
  obtain ⟨hlt, hget⟩ := List.getElem?_eq_some_iff.mp hk
  obtain ⟨hlt', hget'⟩ := List.getElem?_eq_some_iff.mp hk'
  obtain h | h | h := Nat.lt_trichotomy k k'
  · exact (hnodup k k' hlt hlt' h r (by rw [hget]; exact hr) r' (by rw [hget']; exact hr')
      (hn.trans hn'.symm)).elim
  · exact h.symm
  · exact (hnodup k' k hlt' hlt h r' (by rw [hget']; exact hr') r (by rw [hget]; exact hr)
      (hn'.trans hn.symm)).elim

variable [DecidableEq A]

/-- The law of a register file with the entries `q` in flight, in a cycle that does `t`. -/
structure Kind.Law (d : Kind A P) (m : Maps A P) (q : List Entry) (t : RenameTurn A P) : Prop where
  once : ∀ n, d.Once m q n
  injective : Function.Injective m.retireRat
  complement : ∀ n, m.retireFree n = true ↔ ∀ a, m.retireRat a ≠ n
  /-- `old_pdst` is the mapping just before the entry in program order. -/
  old : ∀ pre e post a, q = pre ++ e :: post → d.dst e.uop.toUopFields = some a →
    d.reg e.tag.oldPdst = replay m.retireRat (d.inflight pre) a
  current : m.rat = replay m.retireRat (d.inflight q)
  /-- What is handed out is free, and is handed out once. -/
  taken : t.take.Nodup ∧ ∀ n ∈ t.take, m.free n = true
  /-- What is freed is not free, on either list, and is freed once. -/
  freed : (t.retire.map Rename.old).Nodup ∧ ∀ r ∈ t.retire, m.free r.old = false
  freedRetired : ∀ r, t.retire.head? = some r → m.retireFree r.old = false

theorem once_of_owned (h : Owned m (d.inflight q)) (n : P) : d.Once m q n := by
  have unheld (hq : ∀ r ∈ d.inflight q, r.new ≠ n) (e : Entry) (he : e ∈ q) :
      ¬ d.Holds n e := by
    intro hh
    obtain ⟨r, hr, hn⟩ := holds_iff.mp hh
    exact hq r (mem_inflight.mpr ⟨e, he, hr⟩) hn
  obtain ⟨hfree, hmap, hq⟩ | ⟨hmap, hfree, hq⟩ | ⟨hmem, hfree, hmap⟩ := h.once n
  · exact .inl ⟨hfree, hmap, unheld hq⟩
  · exact .inr (.inl ⟨hfree, hmap, unheld hq⟩)
  · refine .inr (.inr ⟨hfree, hmap, ?_⟩)
    obtain ⟨r, hr, hn⟩ := List.mem_map.mp hmem
    obtain ⟨e, he, hre⟩ := mem_inflight.mp hr
    obtain ⟨k, hk⟩ := List.mem_iff_getElem?.mp he
    have hholds : d.Holds n e := holds_iff.mpr ⟨r, hre, hn⟩
    exact ⟨k, e, hk, hholds, fun k' e' hk' he' => held_once h.nodup hk hk' hholds he'⟩

theorem old_of_owned (h : Owned m (d.inflight q)) {pre post : List Entry} {e : Entry} {a : A}
    (hq : q = pre ++ e :: post) (ha : d.dst e.uop.toUopFields = some a) :
    d.reg e.tag.oldPdst = replay m.retireRat (d.inflight pre) a := by
  have hren : d.rename d.dst e = some ⟨a, d.reg e.tag.pdst, d.reg e.tag.oldPdst⟩ := by
    simp [Kind.rename, ha]
  have hinflight : d.inflight q =
      d.inflight pre ++ ⟨a, d.reg e.tag.pdst, d.reg e.tag.oldPdst⟩ :: d.inflight post := by
    rw [hq, inflight_append, inflight_cons, hren]
    rfl
  exact h.old_eq hinflight

variable [DecidableEq P] {p : Params} {s : State} {j : Input} {n n2 : P}

/-- The law follows from ownership. -/
theorem law_of_owned (hd : d.Ok) (hok : RobOk s) (hf : Fits s)
    (hsup : d.Supplied m n n2 s j (comb p s j)) {g : List Entry}
    (hq : g ≠ [] → s.regs.state ≠ .active ∧ s.regs.state ≠ .drain)
    (h : Owned m (d.inflight (g ++ s.rob))) :
    d.Law m (g ++ s.rob) (d.turn n n2 s (comb p s j)) := by
  obtain ⟨htake, hfree, hnodup, -⟩ := turn_alloc hd hok hf hsup
  obtain ⟨rest, hrest⟩ := retire_prefix (p := p) (j := j) n n2 hd hok hf hq
  constructor
  case once => exact once_of_owned h
  case injective => exact h.inj
  case complement => exact h.retireFree
  case old => exact fun pre e post a hq ha => old_of_owned h hq ha
  case current => exact h.rat
  case taken =>
    rw [htake]
    refine ⟨hnodup, fun x hx => ?_⟩
    obtain ⟨y, hy, rfl⟩ := List.mem_map.mp hx
    exact hfree y hy
  case freed =>
    have holds := h.olds_nodup
    rw [hrest, List.map_append] at holds
    refine ⟨(List.nodup_append.mp holds).1, fun r hr => h.old_not_free ?_⟩
    rw [hrest]
    exact List.mem_append_left rest hr
  case freedRetired =>
    intro r hr
    obtain ⟨l, hl⟩ := List.head?_eq_some_iff.mp hr
    rw [hrest, hl] at h
    rw [h.old_eq (List.nil_append _).symm, Hw.replay_nil]
    exact h.mapped_not_retireFree r.reg

end Law

/-! ## The four register files -/

section Machine

variable {p : Params} {s : RenameState} {i : Input}

/-- The entries in flight. -/
def RenameState.entries (s : RenameState) : List Entry := s.dropped ++ s.core.rob

/-- A destination is in the upper half exactly when the memory pipe writes it. -/
def InHalf (e : Entry) : Prop :=
  (e.uop.dstValid = true → (64 ≤ (gprKind.reg e.tag.pdst).val ↔ e.uop.isMem = true)) ∧
    (e.uop.fpDstValid = true → (64 ≤ (fpKind.reg e.tag.pdst).val ↔ e.uop.isMem = true))

/-- The entry was removed on the way to the exception vector. -/
def FsmState.vectoring : FsmState → Bool
  | .writeEpc | .exceptionDrain | .rat => true
  | _ => false

/-- The invariant of the rename stage. -/
structure RenameInv (s : RenameState) : Prop where
  sane : Sane s.core
  gpr : Owned s.regs.gpr (gprKind.inflight s.entries)
  hilo : Owned s.regs.hilo (hiloKind.inflight s.entries)
  fcr : Owned s.regs.fcr (fcrKind.inflight s.entries)
  fp : Owned s.regs.fp (fpKind.inflight s.entries)
  gone : s.dropped ≠ [] → s.core.regs.state.vectoring = true
  one : s.dropped.length ≤ 1
  zero : s.regs.gpr.retireRat 0 = 0
  half : ∀ e ∈ s.entries, InHalf e

theorem not_vectoring {st : FsmState} (h : st.vectoring = true) : st ≠ .active ∧ st ≠ .drain := by
  cases st <;> simp [FsmState.vectoring] at h ⊢

theorem resetMaps_owned {k n : Nat} (h : k ≤ n) : Owned (resetMaps k n h) [] := by
  refine Owned.init (Fin.castLE_injective h) fun x => ?_
  rw [decide_eq_true_iff]
  constructor
  · intro hx a ha
    have := a.isLt
    have := congrArg Fin.val ha
    simp only [Fin.val_castLE] at this
    omega
  · intro hall
    by_contra hx
    exact hall ⟨x.val, by omega⟩ rfl

theorem renameInv_reset : RenameInv renameReset where
  sane := sane_reset
  gpr := resetMaps_owned _
  hilo := resetMaps_owned _
  fcr := resetMaps_owned _
  fp := resetMaps_owned _
  gone h := (h rfl).elim
  one := Nat.zero_le _
  zero := rfl
  half e he := by simp [RenameState.entries, renameReset, reset] at he

/-- When the maps are copied, nothing stays in flight. -/
theorem entries_copy (hc : (renameComb p s i).ratCopy = true) :
    (renameNext p s i).entries = [] := by
  have hclr : (comb p s.core (withTags p s i)).clrRob = true := by
    rw [← ratCopy_eq]
    exact hc
  have hrob : (renameNext p s i).core.rob = [] := rob_clear hclr
  have hdrop : (renameNext p s i).dropped = [] := if_pos hc
  rw [RenameState.entries, hrob, hdrop, List.append_nil]

theorem entries_keep (hc : (renameComb p s i).ratCopy = false) :
    (renameNext p s i).entries =
      (s.dropped ++
          if (renameComb p s i).retire then [] else s.core.rob.take (leaving (renameComb p s i))) ++
        ((progress s.core (withTags p s i)).drop (leaving (renameComb p s i)) ++
          newEntries s.core (withTags p s i) (renameComb p s i)) := by
  have hclr : (comb p s.core (withTags p s i)).clrRob = false := by
    rw [← ratCopy_eq]
    exact hc
  have hrob := rob_next (p := p) hclr
  have hdrop : (renameNext p s i).dropped = s.dropped ++
      if (renameComb p s i).retire then [] else s.core.rob.take (leaving (renameComb p s i)) := by
    refine if_neg ?_
    rw [hc]
    exact Bool.false_ne_true
  rw [RenameState.entries, hdrop]
  exact congrArg _ hrob

/-- A cycle keeps the ownership of a register file. -/
theorem owned_next {A P : Type} [DecidableEq A] [DecidableEq P] {d : Kind A P} {m : Maps A P}
    {n n2 : P} (hd : d.Ok) (h : RenameInv s)
    (hsup : d.Supplied m n n2 s.core (withTags p s i) (comb p s.core (withTags p s i)))
    (howned : Owned m (d.inflight s.entries)) :
    Owned (tickMaps m (d.turn n n2 s.core (renameComb p s i)) (renameComb p s i).ratCopy)
      (d.inflight (renameNext p s i).entries) := by
  cases hc : (renameComb p s i).ratCopy with
  | true =>
    rw [entries_copy hc]
    have hclr : (comb p s.core (withTags p s i)).clrRob = true := by
      rw [← ratCopy_eq]
      exact hc
    have hs := clrRob_cases h.sane.rob h.sane.fits hclr
    -- nothing retires in `RAT`
    have hret : (d.turn n n2 s.core (renameComb p s i)).retire = [] := by
      obtain ⟨-, hret⟩ | ⟨-, hst, -⟩ :=
        turn_retire (p := p) (j := withTags p s i) n n2 hd h.sane.rob h.sane.fits
      · exact hret
      · simp [hs] at hst
    have hflush : tickMaps m (d.turn n n2 s.core (renameComb p s i)) true = m.flush := by
      simp [tickMaps, hret, Maps.flush]
    rw [hflush]
    exact howned.flush
  | false =>
    rw [entries_keep hc]
    exact owned_turn hd h.sane.rob h.sane.fits hsup (fun hne => not_vectoring (h.gone hne)) howned

/-- What retires has an integer destination that is not `$0`. -/
theorem gprTurn_retire {r : Rename (Fin 32) (Fin 128)} (hr : r ∈ (gprTurn p s i).retire) :
    r.reg ≠ 0 := by
  have real (dst : UopFields → Option (Fin 32)) (hdst : dst = gprKind.dst ∨ dst = gprKind.dstTwo)
      (o : Option Entry) (hr : r ∈ (o.bind (gprKind.rename dst)).toList) : r.reg ≠ 0 := by
    obtain ⟨e, rfl, he⟩ := Option.bind_eq_some_iff.mp (Option.mem_toList.mp hr)
    obtain ⟨a, ha, rfl⟩ := Option.map_eq_some_iff.mp he
    have hv : e.uop.dstValid = true ∧ areg e.uop.dst = a := by
      cases hv : e.uop.dstValid with
      | false => obtain rfl | rfl := hdst <;> simp [gprKind, hv] at ha
      | true => exact ⟨rfl, by obtain rfl | rfl := hdst <;> simpa [gprKind, hv] using ha⟩
    intro hzero
    have hne := e.uop.ok.real hv.1
    exact hne (areg_inj e.uop.ok.reg (by decide) (hv.2.trans hzero))
  simp only [gprTurn, Kind.turn] at hr
  split at hr
  · obtain hr | hr := List.mem_append.mp hr
    · exact real _ (.inl rfl) _ hr
    · split at hr
      · exact real _ (.inr rfl) _ hr
      · cases hr
  · cases hr

theorem zero_next (h : s.regs.gpr.retireRat 0 = 0) :
    (renameNext p s i).regs.gpr.retireRat 0 = 0 := by
  change replay s.regs.gpr.retireRat (gprTurn p s i).retire 0 = 0
  obtain heq | ⟨r, hr, hreg, -⟩ := Hw.replay_eq s.regs.gpr.retireRat (gprTurn p s i).retire 0
  · exact heq.trans h
  · exact (gprTurn_retire hr hreg).elim

/-- An allocation puts its destination in the half of its pipe. -/
theorem half_new (hsane : Sane s.core) {e : Entry}
    (he : e ∈ newEntries s.core (withTags p s i) (renameComb p s i)) : InHalf e := by
  have first {u : Uop} {us : List Uop} {d : Bool} (hdq : s.core.dq = u :: us)
      (ha : (renameComb p s i).alloc = true) : InHalf (Entry.alloc u d (withTags p s i).tag) := by
    have henough := alloc_enough hsane ha
    rw [t_uop_cons hdq] at henough
    constructor
    · intro hv
      change u.dstValid = true at hv
      have h := (nPrf_spec henough hv).2.1
      simpa [Entry.alloc, withTags, tailTag, t_uop_cons hdq, hv, gprKind] using h
    · intro hv
      change u.fpDstValid = true at hv
      have h := (nFp_spec (v := t_uop2 s) henough ha hv).2
      have hdst := u.ok.fp hv
      have hhilo : u.hiloDstValid = false := by
        by_contra hne
        have := (u.ok.hilo (by simpa using hne)).2.2
        simp [hv] at this
      have hfcr : u.fcrDstValid = false := by
        by_contra hne
        have := (u.ok.fcr (by simpa using hne)).2
        simp [hv] at this
      simpa [Entry.alloc, withTags, tailTag, t_uop_cons hdq, hv, hdst, hhilo, hfcr, fpKind] using h
  have hturn := alloc_turn (p := p) (i := withTags p s i) hsane.rob hsane.fits
  rw [comb_withTags] at hturn
  cases hturn with
  | none _ _ hnew =>
    rw [hnew] at he
    cases he
  | one u us hdq ha _ hnew =>
    rw [hnew, List.mem_singleton] at he
    subst he
    exact first hdq ha
  | two u v us hdq ha h2 hnew =>
    rw [hnew, List.mem_cons, List.mem_singleton] at he
    obtain rfl | rfl := he
    · exact first hdq ha
    · have hnext := (allocTwo_enough hsane h2).2
      rw [t_uop_cons hdq, t_uop2_cons hdq] at hnext
      constructor
      · intro hv
        change v.dstValid = true at hv
        have h := (nPrf2_spec hnext hv).2.1
        simpa [Entry.alloc, withTags, nextTailTag, t_uop_cons hdq, t_uop2_cons hdq, hv, gprKind]
          using h
      · intro hv
        change v.fpDstValid = true at hv
        have h := (nFp_spec2 hnext h2 hv).2
        have hdst := v.ok.fp hv
        simpa [Entry.alloc, withTags, nextTailTag, t_uop_cons hdq, t_uop2_cons hdq, hv, hdst,
          fpKind] using h

theorem half_next (h : RenameInv s) : ∀ e ∈ (renameNext p s i).entries, InHalf e := by
  intro e he
  cases hc : (renameComb p s i).ratCopy with
  | true =>
    rw [entries_copy hc] at he
    cases he
  | false =>
    rw [entries_keep hc] at he
    obtain he | he := List.mem_append.mp he
    · refine h.half e (List.mem_append.mpr ?_)
      obtain he | he := List.mem_append.mp he
      · exact .inl he
      · split at he
        · cases he
        · exact .inr (List.mem_of_mem_take he)
    · obtain he | he := List.mem_append.mp he
      · obtain ⟨k, hk⟩ := List.mem_iff_getElem?.mp he
        obtain ⟨e, hget, rfl⟩ := kept_getElem? hk
        have := h.half e (List.mem_append_right _ (List.mem_of_getElem? hget))
        simpa [InHalf] using this
      · exact half_new h.sane he

/-- An entry that leaves without retiring leaves for the exception vector. -/
theorem gone_next (h : RenameInv s) :
    ((renameNext p s i).dropped ≠ [] → (renameNext p s i).core.regs.state.vectoring = true) ∧
      (renameNext p s i).dropped.length ≤ 1 := by
  have hn := state_next (p := p) (i := withTags p s i) h.sane.rob h.sane.fits
  change (renameNext p s i).core.regs.state ∈ s.core.regs.state.succs at hn
  cases hc : (renameComb p s i).ratCopy with
  | true =>
    have hdrop : (renameNext p s i).dropped = [] := if_pos hc
    simp [hdrop]
  | false =>
    have hdrop : (renameNext p s i).dropped = s.dropped ++
        if (renameComb p s i).retire then []
        else s.core.rob.take (leaving (renameComb p s i)) := by
      refine if_neg ?_
      rw [hc]
      exact Bool.false_ne_true
    have hexit := exit_cases (p := p) (i := withTags p s i) h.sane.rob h.sane.fits
    rw [comb_withTags] at hexit
    by_cases hnil : s.dropped = []
    · cases hexit with
      | none hl hr => simp [hdrop, hnil, hr, hl]
      | fault hs hl hr =>
        rw [hs, FsmState.succs, List.mem_singleton] at hn
        rw [hdrop, hnil, hr, hl, hn]
        exact ⟨fun _ => rfl, by simp⟩
      | one e es _ _ _ _ _ hr => simp [hdrop, hnil, hr]
      | two e f es _ _ _ _ _ _ _ _ hr => simp [hdrop, hnil, hr]
    · have hv := h.gone hnil
      obtain ⟨hna, hnd⟩ := not_vectoring hv
      have hone := h.one
      cases hexit with
      | none hl hr =>
        have hsame : (renameNext p s i).dropped = s.dropped := by simp [hdrop, hr, hl]
        rw [hsame]
        refine ⟨fun _ => ?_, hone⟩
        cases hs : s.core.regs.state with
        | writeEpc =>
          rw [hs, FsmState.succs, List.mem_singleton] at hn
          rw [hn]
          rfl
        | exceptionDrain =>
          simp only [hs, FsmState.succs, List.mem_cons, List.not_mem_nil, or_false] at hn
          obtain hn | hn := hn <;> rw [hn] <;> rfl
        | rat =>
          have hclr := clrRob_rat (p := p) (i := withTags p s i) hs
          rw [← ratCopy_eq] at hclr
          exact (Bool.false_ne_true (hc.symm.trans hclr)).elim
        | _ => simp [hs, FsmState.vectoring] at hv
      | fault hs => simp [hs, FsmState.vectoring] at hv
      | one e es _ _ _ hs => exact (hs.elim hna fun h => hnd h.1).elim
      | two e f es _ _ _ _ _ _ hs => exact (hna hs).elim

theorem renameInv_next (h : RenameInv s) : RenameInv (renameNext p s i) where
  sane := sane_next h.sane
  gpr := owned_next gprKind_ok h (gpr_supplied h.sane) h.gpr
  hilo := owned_next hiloKind_ok h (hilo_supplied h.sane) h.hilo
  fcr := owned_next fcrKind_ok h (fcr_supplied h.sane) h.fcr
  fp := owned_next fpKind_ok h (fp_supplied h.sane) h.fp
  gone := (gone_next h).1
  one := (gone_next h).2
  zero := zero_next h.zero
  half := half_next h

end Machine

/-- Rename conservation in a state of the core. -/
structure RenameLaw (p : Params) (s : RenameState) : Prop where
  gpr : ∀ i, gprKind.Law s.regs.gpr s.entries (gprTurn p s i)
  hilo : ∀ i, hiloKind.Law s.regs.hilo s.entries (hiloTurn p s i)
  fcr : ∀ i, fcrKind.Law s.regs.fcr s.entries (fcrTurn p s i)
  fp : ∀ i, fpKind.Law s.regs.fp s.entries (fpTurn p s i)
  /-- An entry is removed without retiring only on the way to the exception vector. -/
  gone : s.dropped ≠ [] → s.core.regs.state.vectoring = true
  one : s.dropped.length ≤ 1
  /-- Integer register 0 is never allocated or freed. -/
  zero : s.regs.gpr.retireRat 0 = 0 ∧ ∀ i, 0 ∉ (gprTurn p s i).take ∧
    ∀ r ∈ (gprTurn p s i).retire, r.old ≠ 0
  half : ∀ e ∈ s.entries, InHalf e
  /-- The destinations of a dual allocation differ. -/
  dual : ∀ i u v us, s.core.dq = u :: v :: us → (renameComb p s i).allocTwo = true →
    (u.dstValid = true → v.dstValid = true →
        (withTags p s i).tag.pdst ≠ (withTags p s i).tagTwo.pdst) ∧
      (v.fpDstValid = true → u.fpDstValid = false) ∧ v.hiloDstValid = false ∧
      v.fcrDstValid = false
  /-- After a copy the speculative maps and free lists are the retired ones. -/
  copied : ∀ i, (renameComb p s i).ratCopy = true →
    let t := (renameNext p s i).regs
    (t.gpr.rat = t.gpr.retireRat ∧ t.gpr.free = t.gpr.retireFree) ∧
      (t.hilo.rat = t.hilo.retireRat ∧ t.hilo.free = t.hilo.retireFree) ∧
      (t.fcr.rat = t.fcr.retireRat ∧ t.fcr.free = t.fcr.retireFree) ∧
      t.fp.rat = t.fp.retireRat ∧ t.fp.free = t.fp.retireFree

section Machine

variable {p : Params} {s : RenameState} {i : Input}

/-- In the cycle of a copy nothing retires, so the maps are equal after it. -/
theorem copied_of_turn {A P : Type} [DecidableEq A] [DecidableEq P] {d : Kind A P} {m : Maps A P}
    {n n2 : P} (hd : d.Ok) (h : RenameInv s) (hc : (renameComb p s i).ratCopy = true) :
    let t := tickMaps m (d.turn n n2 s.core (renameComb p s i)) (renameComb p s i).ratCopy
    t.rat = t.retireRat ∧ t.free = t.retireFree := by
  have hs : s.core.regs.state = .rat := by
    refine clrRob_cases (p := p) (i := withTags p s i) h.sane.rob h.sane.fits ?_
    rw [← ratCopy_eq]
    exact hc
  obtain ⟨-, hret⟩ | ⟨-, hst, -⟩ :=
    turn_retire (p := p) (j := withTags p s i) n n2 hd h.sane.rob h.sane.fits
  · rw [comb_withTags] at hret
    simp [tickMaps, hc, hret]
  · simp [hs] at hst

theorem renameLaw_of (h : RenameInv s) : RenameLaw p s := by
  have hgone (hne : s.dropped ≠ []) := not_vectoring (h.gone hne)
  have hgpr (i : Input) : gprKind.Law s.regs.gpr s.entries (gprTurn p s i) :=
    law_of_owned gprKind_ok h.sane.rob h.sane.fits (gpr_supplied h.sane) hgone h.gpr
  constructor
  case gpr => exact hgpr
  case hilo =>
    exact fun i =>
      law_of_owned hiloKind_ok h.sane.rob h.sane.fits (hilo_supplied h.sane) hgone h.hilo
  case fcr =>
    exact fun i =>
      law_of_owned fcrKind_ok h.sane.rob h.sane.fits (fcr_supplied h.sane) hgone h.fcr
  case fp =>
    exact fun i =>
      law_of_owned fpKind_ok h.sane.rob h.sane.fits (fp_supplied h.sane) hgone h.fp
  case gone => exact h.gone
  case one => exact h.one
  case zero =>
    refine ⟨h.zero, fun i => ⟨fun hmem => ?_, fun r hr hold => ?_⟩⟩
    · -- 0 is the name of a retired register, so it is not free
      have hfree := (hgpr i).taken.2 0 hmem
      have hret := ((h.gpr.free 0).mp hfree).1
      rw [← h.zero, h.gpr.mapped_not_retireFree] at hret
      cases hret
    · -- the name of `$0` never changes, and no other register has it
      obtain ⟨rest, hrest⟩ := retire_prefix (p := p) (j := withTags p s i)
        (nPrf s.regs (t_uop s)) (nPrf2 s.regs (t_uop2 s)) gprKind_ok h.sane.rob
        h.sane.fits hgone
      have howned := h.gpr
      rw [RenameState.entries, hrest] at howned
      obtain ⟨pre, post, hq⟩ := List.append_of_mem hr
      have hqr : (gprTurn p s i).retire ++ rest = pre ++ r :: (post ++ rest) := by
        rw [hq, List.append_assoc, List.cons_append]
      rw [howned.old_eq hqr] at hold
      have hsame : replay s.regs.gpr.retireRat pre 0 = 0 := by
        obtain heq | ⟨t, ht, hreg, -⟩ := Hw.replay_eq s.regs.gpr.retireRat pre 0
        · exact heq.trans h.zero
        · exact (gprTurn_retire (hq ▸ List.mem_append_left _ ht) hreg).elim
      exact gprTurn_retire hr (howned.replay_injective hqr (hold.trans hsame.symm))
  case half => exact h.half
  case dual =>
    intro i u v us hdq h2
    obtain ⟨ha, hnext⟩ := allocTwo_enough h.sane h2
    have henough := alloc_enough h.sane ha
    rw [t_uop_cons hdq] at henough
    rw [t_uop_cons hdq, t_uop2_cons hdq] at hnext
    refine ⟨fun hu hv => ?_, fun hv => ((enoughNext_spec hnext).2.1 hv).1,
      (enoughNext_spec hnext).2.2⟩
    have hne := nPrf_ne henough hnext hu hv
    simp only [withTags, tailTag, nextTailTag, t_uop_cons hdq, t_uop2_cons hdq, hu, hv, if_true]
    exact fun heq => hne (Fin.ext heq)
  case copied =>
    exact fun i hc => ⟨copied_of_turn gprKind_ok h hc, copied_of_turn hiloKind_ok h hc,
      copied_of_turn fcrKind_ok h hc, copied_of_turn fpKind_ok h hc⟩

end Machine

/-- Rename conservation in every run of the core. -/
theorem rename_conserved (p : Params) (is : List Input) :
    RenameLaw p (Hw.run (renameNext p) renameReset is) :=
  renameLaw_of (Hw.run_invariant (I := RenameInv) (fun _ _ h => renameInv_next h)
    renameInv_reset is)

/-- A load. -/
def Uop.load (dst : Fin 32) (h : dst ≠ 0) (pc : BitVec 64) : Uop where
  toUopFields := { UopFields.blank .other pc 0 with isMem := true, dst := dst, dstValid := true }
  ok := by
    constructor <;> simp [UopFields.blank, Op.serializes, Op.isXflush, Op.writesNow, Op.moves]
    simpa using h

/-- A load misses in the TLB and `ARCH_FAULT` removes it. -/
def missingLoad : List Input :=
  boot ++
    [{ quiet with insn := some ⟨.load 2 (by decide) 0x1000, false, false, by decide⟩ }, quiet,
     { quiet with
       memDone := some (0, ⟨false, false, true, false, false, false, 0, 0x4000⟩) },
     quiet, quiet]

/-- Until the maps are copied, the register of a faulting load is not free, not mapped and
not that of an entry of the reorder buffer. -/
theorem faulting_name_unowned :
    ¬ ∀ is n, gprKind.Once (Hw.run (renameNext machine) renameReset is).regs.gpr
      (Hw.run (renameNext machine) renameReset is).core.rob n := by
  intro h
  have hrun : (Hw.run (renameNext machine) renameReset missingLoad).regs.gpr.free 65 = false ∧
      (∀ a, (Hw.run (renameNext machine) renameReset missingLoad).regs.gpr.retireRat a ≠ 65) ∧
      (Hw.run (renameNext machine) renameReset missingLoad).core.rob.length = 0 := by
    decide +kernel
  obtain ⟨hfree, hmap, hrob⟩ := hrun
  have hrob := List.length_eq_zero_iff.mp hrob
  obtain ⟨hf, -⟩ | ⟨-, ⟨a, ha⟩, -⟩ | ⟨-, -, k, e, hk, -⟩ := h missingLoad 65
  · rw [hfree] at hf
    cases hf
  · exact hmap a ha
  · simp [hrob] at hk

end Core

end R9999
