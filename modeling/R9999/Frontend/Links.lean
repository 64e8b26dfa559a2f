import Mathlib.Data.List.Forall2
import R9999.Core.Window
import R9999.Frontend.Model

/-!
# Instructions keep their predictions

An entry of the reorder buffer comes from an instruction of the fetch queue.  Unless an
interrupt or a flush was put in its place, it is a branch exactly when that instruction was
predecoded as one, and if it completes without a fault it went the predicted way.  So an
entry that stays on the path adds to the history what was predicted.
-/

namespace R9999

namespace Frontend

open Core (Uop Entry Insn Params Comb RobOk Fits Sane comb)
open Hw (shiftIn shiftAll)

/-- What an entry adds to the history when it leaves.  A faulting entry that takes an
exception does not retire. -/
def outcome (x : Entry × FetchInsn) : List Bool :=
  if x.1.uop.isBr && !x.1.archFault then [x.1.takeBr] else []

/-- The path goes on behind the entry as it was predicted: the entry is complete, has no
fault, and is the fetched instruction. -/
def onPath (x : Entry × FetchInsn) : Bool :=
  x.1.done && !x.1.faulted && !x.1.uop.op.isXflush

/-- Decode made `u` of the instruction. -/
inductive Decoded (a : FetchInsn) : Uop → Prop where
  | own : Decoded a a.insn.uop
  | irq (u : Uop) (hop : u.op = .irq) (hbr : u.isBr = false) : Decoded a u
  | xflush (u : Uop) (hop : u.op.isXflush = true) (hbr : u.isBr = false)
      (hser : u.serializingOp = true) : Decoded a u

/-- The entry of an instruction. -/
structure Resolved (e : Entry) (a : FetchInsn) : Prop where
  decoded : Decoded a e.uop
  /-- What is complete when it is allocated does not change any more. -/
  folded : e.uop.op.fold = true →
    e.complete = true ∧ e.faulted = e.uop.op.foldFaults ∧ e.takeBr = decide (e.uop.op = .j)
  agreed : e.uop.isBr = true → e.complete = true → e.faulted = false → e.takeBr = a.pred

/-- The entries and the decoded operations with the instructions they come from. -/
structure Links (s : HistState) : Prop where
  rob : List.Forall₂ Resolved s.core.rob s.robTags
  dq : List.Forall₂ (fun u a => Decoded a u) s.core.dq s.dqTags
  left : ∀ x ∈ s.ledger.left, Resolved x.1 x.2

section Entries

variable {a : FetchInsn} {e : Entry} {st : Core.State} {j : Core.Input} {k : Nat}

/-- Every branch has a delay slot. -/
theorem Decoded.slot {u : Uop} (h : Decoded a u) (hbr : u.isBr = true) : u.hasDelaySlot = true := by
  cases h with
  | own => exact a.slot hbr
  | irq _ _ hno =>
    rw [hno] at hbr
    cases hbr
  | xflush _ _ hno =>
    rw [hno] at hbr
    cases hbr

theorem decoded_decode (inSlot : Bool) : Decoded a (Core.decode st j inSlot a.insn) := by
  unfold Core.decode
  split
  · exact .irq _ rfl rfl
  split
  · refine .xflush _ ?_ rfl rfl
    change (Core.xflushOp st.regs).op.isXflush = true
    cases Core.xflushOp st.regs <;> rfl
  · exact .own

theorem Resolved.alloc {u : Uop} (h : Decoded a u) (d : Bool) (t : Core.Tag) :
    Resolved (Entry.alloc u d t) a where
  decoded := h
  folded hf := ⟨hf, rfl, rfl⟩
  agreed hbr hc hf := by
    change u.isBr = true at hbr
    change u.op.fold = true at hc
    change u.op.foldFaults = false at hf
    change decide (u.op = .j) = a.pred
    have hj := (u.ok.branch (h.slot hbr)).2
    have hop : u.op = .j := by
      revert hc hf hj
      cases u.op <;> simp [Core.Op.fold, Core.Op.foldFaults, Core.Op.jumps]
    cases h with
    | own => simp [hop, a.jump hop]
    | irq _ hirq =>
      rw [hirq] at hop
      cases hop
    | xflush _ _ hno =>
      rw [hno] at hbr
      cases hbr

/-- The int pipe reports the branches that do not go the predicted way. -/
theorem Resolved.intDone (h : Resolved e a) {r : Core.IntResult}
    (hr : e.uop.isBr = true → r.takeBr ≠ a.pred → r.faulted = true) :
    Resolved (e.intDone r) a := by
  unfold Entry.intDone
  split
  next hc =>
    simp only [Bool.and_eq_true, Bool.not_eq_true'] at hc
    refine ⟨h.decoded, ?_, ?_⟩
    · intro hf
      have hdone := (h.folded hf).1
      rw [hc.2] at hdone
      cases hdone
    · intro hbr _ hf
      change e.faultsWith r = false at hf
      change r.takeBr = a.pred
      rw [Entry.faultsWith, Entry.jump_faults (e.uop.ok.branch (h.decoded.slot hbr)).2,
        Bool.or_eq_false_iff] at hf
      by_contra hne
      rw [hr hbr hne] at hf
      cases hf.1
  next => exact h

/-- The other pipes complete no branch. -/
theorem Resolved.fpDone (h : Resolved e a) (r : Core.FpResult) : Resolved (e.fpDone r) a := by
  unfold Entry.fpDone
  split
  next hc =>
    simp only [Bool.and_eq_true, Bool.not_eq_true'] at hc
    refine ⟨h.decoded, ?_, ?_⟩
    · intro hf
      have hdone := (h.folded hf).1
      rw [hc.2] at hdone
      cases hdone
    · intro hbr
      have hint := (e.uop.ok.branch (h.decoded.slot hbr)).1
      have hfp := (e.uop.ok.pipeInt hint).2
      rw [hc.1] at hfp
      cases hfp
  next => exact h

theorem Resolved.memDone (h : Resolved e a) (r : Core.MemResult) : Resolved (e.memDone r) a := by
  unfold Entry.memDone
  split
  next hc =>
    simp only [Bool.and_eq_true, Bool.not_eq_true'] at hc
    refine ⟨h.decoded, ?_, ?_⟩
    · intro hf
      have hdone := (h.folded hf).1
      rw [hc.2] at hdone
      cases hdone
    · intro hbr
      have hint := (e.uop.ok.branch (h.decoded.slot hbr)).1
      have hmem := (e.uop.ok.pipeInt hint).1
      rw [hc.1] at hmem
      cases hmem
  next => exact h

theorem Resolved.next (h : Resolved e a)
    (hr : ∀ r, j.intDone = some (k, r) → e.uop.isBr = true → r.takeBr ≠ a.pred →
      r.faulted = true) : Resolved (e.next st j k) a := by
  have hint : Resolved (Core.applyAt Entry.intDone k j.intDone e) a := by
    cases hd : j.intDone with
    | none => exact h
    | some x =>
      obtain ⟨m, r⟩ := x
      unfold Core.applyAt
      dsimp only
      split
      next hm => exact h.intDone (hr r (by rw [hd, hm]))
      next => exact h
  -- the other events do not touch a branch
  have at_ {ρ : Type} {f : ρ → Entry → Entry} (hf : ∀ e r, Resolved e a → Resolved (f r e) a)
      (o : Option (Nat × ρ)) {e : Entry} (h : Resolved e a) :
      Resolved (Core.applyAt f k o e) a := by
    unfold Core.applyAt
    split
    · exact h
    · split
      · exact hf _ _ h
      · exact h
  have hall := at_ (fun _ r h => h.memDone r) j.memDone
    (at_ (fun _ r h => h.fpDone r) j.fpDone hint)
  have hsd : Resolved (if j.sdDone = some k then
      (Core.applyAt Entry.memDone k j.memDone (Core.applyAt Entry.fpDone k j.fpDone
        (Core.applyAt Entry.intDone k j.intDone e))).sdDone
      else Core.applyAt Entry.memDone k j.memDone (Core.applyAt Entry.fpDone k j.fpDone
        (Core.applyAt Entry.intDone k j.intDone e))) a := by
    split
    · exact ⟨hall.decoded, hall.folded, hall.agreed⟩
    · exact hall
  unfold Entry.next
  dsimp only
  split
  · exact ⟨hsd.decoded, hsd.folded, hsd.agreed⟩
  · exact hsd

/-- **The prediction holds.**  An entry that stays on the path adds to the history what was
predicted for its instruction. -/
theorem Resolved.outcome (h : Resolved e a) (hp : onPath (e, a) = true) :
    Frontend.outcome (e, a) = a.bits := by
  simp only [onPath, Entry.done, Bool.and_eq_true, Bool.not_eq_true'] at hp
  obtain ⟨⟨⟨-, hdone⟩, hfault⟩, hx⟩ := hp
  have harch := Core.archFault_of_faulted hfault
  have hfold : e.uop.op.foldFaults = false := by
    cases hf : e.uop.op.fold with
    | true => exact (h.folded hf).2.1.symm.trans hfault
    | false =>
      revert hf
      cases e.uop.op <;> simp [Core.Op.fold, Core.Op.foldFaults]
  have huop : e.uop = a.insn.uop := by
    generalize hu : e.uop = u
    have hd := h.decoded
    rw [hu] at hd hx hfold
    cases hd with
    | own => rfl
    | irq _ hirq => simp [hirq, Core.Op.foldFaults] at hfold
    | xflush _ hxf =>
      rw [hxf] at hx
      cases hx
  have hbr : e.uop.isBr = (a.insn.isBranch && !a.missed) := by
    rw [huop] at hfold ⊢
    exact a.branch hfold
  simp only [Frontend.outcome, FetchInsn.bits, harch, Bool.not_false, Bool.and_true, hbr]
  split
  next hb => rw [h.agreed (hbr.trans hb) hdone hfault]
  next => rfl

end Entries

section Step

variable {p : Params} {s : HistState} {i : HistIn}

theorem links_reset (tlb : Fin Iss.numTlbEntries → Mmu.TlbStored)
    (micro : Fin Mmu.numUitlbEntries → Mmu.MicroEntry) : Links (histReset tlb micro) where
  rob := .nil
  dq := .nil
  left := by
    intro x hx
    cases hx

/-- The events of a cycle keep the links of the entries. -/
theorem progress_links (h : Links s) :
    List.Forall₂ Resolved (Core.progress s.core (coreIn s i)) s.robTags := by
  have hlen := h.rob.length_eq
  refine List.forall₂_of_length_eq_of_get (by simpa using hlen) ?_
  intro k hk hk'
  have hk0 : k < s.core.rob.length := by simpa using hk
  have hr := List.Forall₂.get h.rob hk0 hk'
  have hget : (Core.progress s.core (coreIn s i)).get ⟨k, hk⟩ =
      (s.core.rob.get ⟨k, hk0⟩).next s.core (coreIn s i) k := by simp [Core.progress]
  rw [hget]
  refine hr.next ?_
  intro r hint hbr hne
  obtain ⟨⟨m, r'⟩, -, heq⟩ := Option.map_eq_some_iff.mp hint
  obtain ⟨rfl, rfl⟩ := Prod.mk.inj heq
  have he : s.core.rob[m]? = some (s.core.rob.get ⟨m, hk0⟩) := List.getElem?_eq_getElem hk0
  have ha : s.robTags[m]? = some (s.robTags.get ⟨m, hk'⟩) := List.getElem?_eq_getElem hk'
  simp only [resolve, he, ha] at hne ⊢
  rw [Bool.or_eq_true, Bool.and_eq_true, bne_iff_ne]
  exact .inr ⟨hbr, hne⟩

/-- What is allocated comes from the head of the decode queue. -/
theorem newEntries_links (h : Links s) (c : Comb) :
    List.Forall₂ Resolved (Core.newEntries s.core (coreIn s i) c)
      (s.dqTags.take (Core.allocating c)) := by
  have hdq := h.dq
  unfold Core.newEntries Core.allocating
  revert hdq
  generalize s.core.dq = us
  generalize s.dqTags = as
  intro hdq
  cases hdq with
  | nil =>
    rw [List.take_nil]
    exact .nil
  | cons hu hus =>
    dsimp only
    cases c.alloc with
    | false => exact .nil
    | true =>
      cases hus with
      | nil =>
        rw [if_pos rfl, if_pos rfl]
        cases c.allocTwo <;> exact .cons (.alloc hu _ _) .nil
      | cons hv hvs =>
        rw [if_pos rfl, if_pos rfl]
        cases c.allocTwo with
        | false => exact .cons (.alloc hu _ _) .nil
        | true => exact .cons (.alloc hu _ _) (.cons (.alloc hv _ _) .nil)

/-- What decode pushes comes from the head of the fetch queue. -/
theorem decoded_links (c : Comb) :
    List.Forall₂ (fun u a => Decoded a u)
      (Core.decoded s.core (coreIn s i) (Core.pushed p s.core (coreIn s i) c))
      (s.fq.take (Core.pushed p s.core (coreIn s i) c).length) := by
  unfold Core.pushed
  split
  · exact .nil
  · simp only [coreIn]
    match s.fq with
    | [] => exact .nil
    | [a] => exact .cons (decoded_decode _) .nil
    | a :: b :: _ =>
      simp only [List.getElem?_cons_zero, List.getElem?_cons_succ, Option.map_some]
      split
      · exact .cons (decoded_decode _) (.cons (decoded_decode _) .nil)
      · exact .cons (decoded_decode _) .nil

theorem leaves_links (h : Links s) (c : Comb) : ∀ x ∈ leaves s c, Resolved x.1 x.2 := by
  intro x hx
  exact List.forall₂_zip h.rob (List.mem_of_mem_take hx)

theorem links_next (h : Links s) : Links (histNext p s i) where
  rob := by
    change List.Forall₂ Resolved (Core.nextRob s.core (coreIn s i) (turn p s i))
      (if (turn p s i).clrRob then [] else _)
    unfold Core.nextRob
    split
    · exact .nil
    · exact List.rel_append (List.forall₂_drop _ (progress_links h)) (newEntries_links h _)
  dq := by
    change List.Forall₂ _ (if (turn p s i).clrDq then [] else _)
      (if (turn p s i).clrDq then [] else _)
    split
    · exact .nil
    · exact List.rel_append (List.forall₂_drop _ h.dq) (decoded_links _)
  left := by
    intro x hx
    change x ∈ (ledgerNext p s i (Core.next p s.core (coreIn s i))).left at hx
    unfold ledgerNext at hx
    split at hx
    · cases hx
    · obtain hx | hx := List.mem_append.mp hx
      · exact h.left x hx
      · exact leaves_links h _ x (List.mem_of_mem_drop hx)

/-- The entries that leave, without their instructions. -/
theorem leaves_fst (h : Links s) (c : Comb) :
    (leaves s c).map Prod.fst = s.core.rob.take (Core.leaving c) := by
  rw [leaves, List.map_take, List.map_fst_zip (le_of_eq h.rob.length_eq)]

theorem leaves_snd (h : Links s) (c : Comb) :
    (leaves s c).map Prod.snd = s.robTags.take (Core.leaving c) := by
  rw [leaves, List.map_take, List.map_snd_zip (ge_of_eq h.rob.length_eq)]

/-- At most one of two entries that retire together is a branch. -/
theorem retireTwo_branch {st : Core.State} {j : Core.Input} {e f : Entry} {es : List Entry}
    (hs : st.regs.state = .active) (hrob : st.rob = e :: f :: es)
    (h2 : (comb p st j).retireTwo = true) : e.uop.isBr = false ∨ f.uop.isBr = false := by
  obtain ⟨c, hturn, hcomb⟩ := Core.comb_active (p := p) (i := j) hs
  rw [hcomb] at h2
  cases hturn with
  | detour => simp [Core.finish] at h2
  | fault => simp [Core.finish] at h2
  | restart => simp [Core.finish] at h2
  | retire b bs hrob' =>
    obtain ⟨rfl, rfl⟩ := List.cons.inj (hrob.symm.trans hrob')
    simp only [Core.finish, Core.accumulate_retireTwo, Core.canRetireTwo, Bool.and_eq_true,
      Bool.or_eq_true, Bool.not_eq_true'] at h2
    obtain ⟨⟨⟨⟨⟨⟨⟨-, hbr⟩, -⟩, -⟩, -⟩, -⟩, -⟩, -⟩ := h2
    exact hbr
  | wait =>
    obtain ⟨-, h⟩ | ⟨-, -, h⟩ | ⟨-, h⟩ :=
      Core.allocate_cases (p := p) (s := st) (i := j) (Core.tick st j) <;>
      simp [Core.finish, h] at h2

/-- The report of a cycle has the bits of the entries that leave. -/
theorem reported_eq (h : Links s) (hsane : Sane s.core)
    (harch : s.core.regs.state = .archFault → ∀ e es, s.core.rob = e :: es → e.archFault = true) :
    (if (reported s (turn p s i)).any (·.uop.isBr) then [(reported s (turn p s i)).any (·.takeBr)]
      else []) = (leaves s (turn p s i)).flatMap outcome := by
  have hbits : (leaves s (turn p s i)).flatMap outcome =
      (s.core.rob.take (Core.leaving (turn p s i))).flatMap
        fun e => if e.uop.isBr && !e.archFault then [e.takeBr] else [] := by
    rw [← leaves_fst h, List.flatMap_map]
    rfl
  rw [hbits]
  have hexit := Core.exit_cases (p := p) (i := coreIn s i) hsane.rob hsane.fits
  change Core.Exit s.core (turn p s i) at hexit
  cases hexit with
  | none hl hr => simp [reported, hl, hr]
  | fault hs hl hr =>
    obtain ⟨e, es, hrob, -⟩ : ∃ e es, s.core.rob = e :: es ∧ _ := by
      have hf := hsane.fits
      simpa only [Fits, hs] using hf
    simp [reported, hl, hr, hrob, harch hs e es hrob]
  | one e es hrob hdone hna hs hl hr h2 =>
    cases hbr : e.uop.isBr <;> simp [reported, nextHeadBr, hl, hr, h2, hrob, hbr, hna]
  | two e f es hrob hdone hdone2 hfault hfault2 hplain hs hl hr h2 =>
    have hna := Core.archFault_of_faulted hfault
    have hna2 := Core.archFault_of_faulted hfault2
    obtain hbr | hbr := retireTwo_branch hs hrob h2
    · cases hbr2 : f.uop.isBr <;>
        simp [reported, nextHeadBr, hl, hr, h2, hrob, hbr, hbr2, hna, hna2]
    · cases hbr2 : e.uop.isBr <;>
        simp [reported, nextHeadBr, hl, hr, h2, hrob, hbr, hbr2, hna, hna2]

/-- **Retirement.**  The architectural history takes the bits of the entries that leave. -/
theorem archNext_next (h : Links s) (hsane : Sane s.core)
    (harch : s.core.regs.state = .archFault → ∀ e es, s.core.rob = e :: es → e.archFault = true) :
    archNext (histNext p s i) =
      shiftAll (archNext s) ((leaves s (turn p s i)).flatMap outcome) := by
  rw [← reported_eq h hsane harch]
  change (if (reported s (turn p s i)).any (·.uop.isBr) then
    shiftIn (archNext s) ((reported s (turn p s i)).any (·.takeBr)) else archNext s) = _
  split
  · exact (Hw.shiftAll_singleton _ _).symm
  · exact (Hw.shiftAll_nil _).symm

end Step

end Frontend

end R9999
