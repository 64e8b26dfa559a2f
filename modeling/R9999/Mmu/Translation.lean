import R9999.Mmu.Dtlb
import R9999.Mmu.Match

/-!
# The translation of an address

What the two TLBs answer, as a function of the writes since the reset.  `matched` is the lowest
slot that has been written and matches, and `lookup` what it answers; both TLBs compute it, the
one of the I-side from the addresses of two cycles.  `TlbStored.Fits` and `TlbStored.Translates`
say what a match is and what address is made of it.
-/

namespace R9999

namespace Mmu

open Iss (numTlbEntries)

/-! ## The function -/

/-- The writes before a cycle. -/
def since (ws : ℕ → Option TlbData) : ℕ → List TlbData
  | 0 => []
  | t + 1 => since ws t ++ (ws t).toList

/-- What a slot has been written with last. -/
def lastWrite (l : List TlbData) (j : Fin numTlbEntries) : Option TlbStored :=
  (l.reverse.find? fun e => e.entry.toNat == j.val).map TlbData.stored

/-- A slot that has been written matches. -/
def slotHits (l : List TlbData) (i : LookupIn) (j : Fin numTlbEntries) : Bool :=
  (lastWrite l j).any fun e => e.addrSpaceMatch i.asid && e.hit8k i.va

/-- The lowest slot that matches. -/
def matched (l : List TlbData) (i : LookupIn) : Option (Fin numTlbEntries) :=
  (List.finRange numTlbEntries).find? (slotHits l i)

/-- What a slot answers. -/
def TlbStored.answer (e : TlbStored) (j : Fin numTlbEntries) (va : BitVec 64) : Answer where
  hitIndex := BitVec.ofNat 6 j.val
  dirty := (e.page va).d
  valid := (e.page va).v
  cacheAttr := (e.page va).c
  pa := e.pa va

/-- What is answered: the slot is found for `i`, among the writes `l`, and read for `i'`, with
those of `l'`. -/
def lookup (l l' : List TlbData) (i i' : LookupIn) : Option Answer :=
  if i'.active then
    if i'.req then (matched l i).map fun j => ((lastWrite l' j).getD {}).answer j i'.va else none
  else
    some
      { hitIndex := ((matched l i).map fun j => BitVec.ofNat 6 j.val).getD 0
        dirty := true, valid := true, cacheAttr := 3, pa := i'.va.setWidth 36 }

/-! ## What a slot is for -/

/-- A slot is for an address: in its region, its page but for the bits that the mask covers, and
its address space, or in all. -/
structure TlbStored.Fits (e : TlbStored) (va : BitVec 64) (asid : BitVec 8) : Prop where
  region : e.r = va.extractLsb' 62 2
  vpn : ∀ k < 27, (k < 12 → e.pagemask.getLsbD k = false) →
    e.vpn.getLsbD k = va.getLsbD (13 + k)
  space : e.asid = asid ∨ e.page0.g = true ∧ e.page1.g = true

/-- The page of a pair of pages of `2 ^ (12 + 2 * k)` bytes: the bit above the offset chooses
it. -/
def TlbStored.pageAt (e : TlbStored) (va : BitVec 64) (k : ℕ) : EntryLo 18 :=
  if va.getLsbD (12 + 2 * k) then e.page1 else e.page0

/-- What a slot of such pages answers: its page's bits, and its page's frame with the offset of
the address. -/
structure TlbStored.Translates (e : TlbStored) (va : BitVec 64) (k : ℕ) (a : Answer) : Prop where
  dirty : a.dirty = (e.pageAt va k).d
  valid : a.valid = (e.pageAt va k).v
  cacheAttr : a.cacheAttr = (e.pageAt va k).c
  pa : ∀ b < 36, a.pa.getLsbD b =
    if b < 12 + 2 * k then va.getLsbD b else (e.pageAt va k).pfn.getLsbD (b - 12)

variable {e : TlbStored} {va : BitVec 64} {asid : BitVec 8}

theorem fits_iff : e.Fits va asid ↔ (e.addrSpaceMatch asid && e.hit8k va) = true := by
  rw [TlbStored.addrSpaceMatch, TlbStored.hit8k, Bool.and_eq_true, Bool.or_eq_true,
    Bool.and_eq_true, Bool.and_eq_true, beq_iff_eq, beq_iff_eq, beq_iff_eq]
  have hvpn : (e.vpn ^^^ va.extractLsb' 13 27) &&& (BitVec.allOnes 15 ++ ~~~e.pagemask) = 0 ↔
      ∀ k < 27, (k < 12 → e.pagemask.getLsbD k = false) →
        e.vpn.getLsbD k = va.getLsbD (13 + k) := by
    rw [xor_and_eq_zero_iff]
    refine forall_congr' fun k => forall_congr' fun hk => ?_
    rw [getLsbD_compare _ _ hk, BitVec.getLsbD_extractLsb', decide_eq_true hk, Bool.true_and]
    refine imp_congr_left ?_
    by_cases h12 : k < 12
    · simp [h12]
    · simp [h12]
  rw [hvpn]
  constructor
  · rintro ⟨hr, hv, hs⟩
    exact ⟨hs, hv, hr⟩
  · rintro ⟨hs, hv, hr⟩
    exact ⟨hr, hv, hs⟩

/-- **The address of a page of one of the sizes.** -/
theorem translates_of_size (h : e.pagemask ∈ pageSizes) (j : Fin numTlbEntries)
    (va : BitVec 64) :
    ∃ k ≤ 6, e.pagemask = BitVec.ofNat 12 (2 ^ (2 * k) - 1) ∧
      e.Translates va k (e.answer j va) := by
  obtain ⟨hk, hm⟩ := pagemask_of_size e h
  refine ⟨e.pgsz, hk, hm, ⟨rfl, rfl, rfl, ?_⟩⟩
  intro b hb
  show (e.pa va).getLsbD b = _
  have hpage : e.pageAt va e.pgsz = e.page va := rfl
  rw [TlbStored.pa, hpage]
  generalize e.page va = p
  generalize e.pgsz = k at hk
  have hmask : (BitVec.ofNat 36 (2 ^ (12 + 2 * k) - 1)).getLsbD b = decide (b < 12 + 2 * k) := by
    rw [BitVec.getLsbD_ofNat, Nat.testBit_two_pow_sub_one, decide_eq_true hb, Bool.true_and]
  simp only [BitVec.getLsbD_or, BitVec.getLsbD_and, BitVec.getLsbD_shiftLeft,
    BitVec.getLsbD_setWidth, BitVec.getLsbD_ushiftRight, hmask, decide_eq_true hb, Bool.true_and]
  rcases Nat.lt_or_ge b (12 + 2 * k) with hlt | hge
  · -- the offset
    simp only [hlt, if_true, decide_true, Bool.and_true]
    by_cases h12 : b < 12
    · simp [h12]
    · have hsub : b - 12 < 2 * k := by omega
      simp [h12, hsub]
  · -- the frame
    have h12 : ¬ b < 12 := by omega
    have hsub : ¬ b - 12 < 2 * k := by omega
    have hoff : ¬ b < 12 + 2 * k := by omega
    have hadd : 2 * k + (b - 12 - 2 * k) = b - 12 := by omega
    have h36 : b - 12 < 36 := by omega
    have h24 : b - 12 < 24 := by omega
    simp [h12, hsub, hoff, hadd, h36, h24]

/-! ## What the slots hold -/

/-- The slots hold what has been written, and which have been is recorded. -/
structure Holds (tlb : Fin numTlbEntries → TlbStored) (written : Fin numTlbEntries → Bool)
    (l : List TlbData) : Prop where
  written : ∀ j, written j = (lastWrite l j).isSome
  tlb : ∀ j e, lastWrite l j = some e → tlb j = e

section Holds

variable {tlb : Fin numTlbEntries → TlbStored} {written : Fin numTlbEntries → Bool}
  {l : List TlbData} {i : LookupIn} {j : Fin numTlbEntries}

theorem lastWrite_append (l : List TlbData) (w : TlbData) (j : Fin numTlbEntries) :
    lastWrite (l ++ [w]) j = if w.entry.toNat = j.val then some w.stored else lastWrite l j := by
  unfold lastWrite
  rw [List.reverse_append, List.reverse_singleton, List.singleton_append, List.find?_cons]
  by_cases h : w.entry.toNat = j.val
  · rw [beq_iff_eq.2 h, if_pos h]
    rfl
  · rw [beq_eq_false_iff_ne.2 h, if_neg h]

theorem update_slot {α : Type*} (f : Fin numTlbEntries → α) (idx : BitVec 6) (x : α)
    (j : Fin numTlbEntries) :
    (if h : idx.toNat < numTlbEntries then Function.update f ⟨idx.toNat, h⟩ x else f) j =
      if idx.toNat = j.val then x else f j := by
  by_cases h : idx.toNat < numTlbEntries
  · rw [dif_pos h, Function.update_apply]
    refine if_congr ?_ rfl rfl
    rw [Fin.ext_iff]
    exact eq_comm
  · have hne : idx.toNat ≠ j.val := fun heq => h (heq ▸ j.isLt)
    rw [dif_neg h, if_neg hne]

/-- A write keeps it. -/
theorem Holds.write (h : Holds tlb written l) (w : TlbData) {tlb' : Fin numTlbEntries → TlbStored}
    {written' : Fin numTlbEntries → Bool}
    (ht : ∀ j, tlb' j = if w.entry.toNat = j.val then w.stored else tlb j)
    (hw : ∀ j, written' j = if w.entry.toNat = j.val then true else written j) :
    Holds tlb' written' (l ++ [w]) := by
  constructor
  · intro j
    rw [hw, lastWrite_append]
    split
    · rfl
    · exact h.written j
  · intro j e he
    rw [lastWrite_append] at he
    rw [ht]
    split at he
    · next heq =>
      rw [if_pos heq]
      exact Option.some.inj he
    · next hne =>
      rw [if_neg hne]
      exact h.tlb j e he

/-- The compare of a slot is that of what it has been written with. -/
theorem Holds.hits (h : Holds tlb written l) (i : LookupIn) (j : Fin numTlbEntries) :
    ((tlb j).addrSpaceMatch i.asid && (tlb j).hit8k i.va && written j) = slotHits l i j := by
  rw [h.written, slotHits]
  cases he : lastWrite l j with
  | none => exact Bool.and_false _
  | some e =>
    rw [h.tlb j e he]
    exact Bool.and_true _

theorem slotHits_iff :
    slotHits l i j = true ↔ ∃ e, lastWrite l j = some e ∧ e.Fits i.va i.asid := by
  rw [slotHits, Option.any_eq_true]
  simp only [fits_iff]

/-- A slot that matches has been written. -/
theorem matched_spec (h : matched l i = some j) :
    ∃ e, lastWrite l j = some e ∧ e.Fits i.va i.asid :=
  slotHits_iff.1 (List.find?_some h)

theorem matched_isSome : (matched l i).isSome = true ↔ ∃ j e, lastWrite l j = some e ∧
    e.Fits i.va i.asid := by
  rw [matched, List.find?_isSome]
  constructor
  · rintro ⟨j, -, hj⟩
    exact ⟨j, slotHits_iff.1 hj⟩
  · rintro ⟨j, hj⟩
    exact ⟨j, List.mem_finRange j, slotHits_iff.2 hj⟩

/-- A slot that has been written stays so. -/
theorem lastWrite_mono {e : TlbStored} (h : lastWrite l j = some e) (w : Option TlbData) :
    (lastWrite (l ++ w.toList) j).isSome = true := by
  cases w with
  | none => rw [Option.toList_none, List.append_nil, h]; rfl
  | some w =>
    rw [Option.toList_some, lastWrite_append]
    split
    · rfl
    · rw [h]; rfl

theorem getElem_slot (tlb : Fin numTlbEntries → TlbStored) (j : Fin numTlbEntries) :
    (if h : (BitVec.ofNat 6 j.val).toNat < numTlbEntries then
      tlb ⟨(BitVec.ofNat 6 j.val).toNat, h⟩ else {}) = tlb j := by
  have hj : (BitVec.ofNat 6 j.val).toNat = j.val :=
    Nat.mod_eq_of_lt (j.isLt.trans (by decide))
  simp only [hj, j.isLt, dif_pos]

/-- The match is the lowest. -/
theorem matched_le {k : Fin numTlbEntries} {e : TlbStored} (h : matched l i = some j)
    (he : lastWrite l k = some e) (hf : e.Fits i.va i.asid) : j ≤ k := by
  by_contra hlt
  have hbelow := (Hw.isLowest_of_find h).below k (not_le.1 hlt)
  have hk : slotHits l i k = true := slotHits_iff.2 ⟨e, he, hf⟩
  rw [Hw.wires, dif_pos k.isLt, hk] at hbelow
  exact Bool.noConfusion hbelow

end Holds

/-! ## The outputs -/

/-- The index of a match. -/
def matchIdx (m : Option (Fin numTlbEntries)) : BitVec 6 :=
  (m.map fun j => BitVec.ofNat 6 j.val).getD 0

/-- The outputs, from the index of the match and the slot that it names. -/
theorem answer_eq (l l' : List TlbData) (i i' : LookupIn) {e : TlbStored}
    (he : ∀ j, matched l i = some j → e = (lastWrite l' j).getD {}) :
    (if (if i'.active then i'.req && (matched l i).isSome else true) = true then
      some (Answer.mk (matchIdx (matched l i)) (if i'.active then (e.page i'.va).d else true)
        (if i'.active then (e.page i'.va).v else true)
        (if i'.active then (e.page i'.va).c else 3)
        (if i'.active then e.pa i'.va else i'.va.setWidth 36))
    else none) = lookup l l' i i' := by
  unfold lookup
  cases i'.active with
  | false => rfl
  | true =>
    cases i'.req with
    | false => rfl
    | true =>
      cases hm : matched l i with
      | none => rfl
      | some j =>
        rw [he j hm]
        rfl

section Runs

variable (d : Dtlb) (u : Jtlb) (ws : ℕ → Option TlbData) (ls : ℕ → LookupIn) (is : ℕ → Bool)

theorem dtlb_holds (t : ℕ) :
    Holds (d.run ws ls t).tlb (d.run ws ls t).written (since ws t) := by
  induction t with
  | zero => exact ⟨fun _ => rfl, fun _ _ h => absurd h (by simp [since, lastWrite])⟩
  | succ t ih =>
    show Holds ((d.run ws ls t).writeTlb (ws t)) ((d.run ws ls t).writeWritten (ws t)) _
    rw [since]
    cases ws t with
    | none => rwa [Option.toList_none, List.append_nil]
    | some w => exact ih.write w (update_slot _ _ _) (update_slot _ _ _)

/-- **The data TLB answers the lookup of the writes.** -/
theorem dtlb_answer (t : ℕ) :
    (d.run ws ls (t + 1)).answer = lookup (since ws t) (since ws t) (ls t) (ls t) := by
  have h := dtlb_holds d ws ls t
  have hhits : (d.run ws ls t).hits (ls t) = slotHits (since ws t) (ls t) := by
    funext j
    exact h.hits (ls t) j
  have hidx : (d.run ws ls t).hitIdx (ls t) = matchIdx (matched (since ws t) (ls t)) := by
    rw [Dtlb.hitIdx, hhits, Hw.findLowestSetBit_eq 3 _ (by decide), matchIdx, matched]
    cases (List.finRange numTlbEntries).find? (slotHits (since ws t) (ls t)) <;> rfl
  have hany : (List.finRange numTlbEntries).any ((d.run ws ls t).hits (ls t)) =
      (matched (since ws t) (ls t)).isSome := by
    rw [hhits, matched, Bool.eq_iff_iff, List.find?_isSome, List.any_eq_true]
  have hslot (j : Fin numTlbEntries) (hj : matched (since ws t) (ls t) = some j) :
      (d.run ws ls t).slot ((d.run ws ls t).hitIdx (ls t)) =
        (lastWrite (since ws t) j).getD {} := by
    obtain ⟨e, he, -⟩ := matched_spec hj
    rw [hidx, hj, he]
    exact (getElem_slot _ j).trans (h.tlb j e he)
  rw [← answer_eq _ _ _ _ hslot, ← hany, ← hidx]
  rfl

theorem jtlb_holds (t : ℕ) :
    Holds (u.run ws ls is t).tlb (u.run ws ls is t).written (since ws t) := by
  induction t with
  | zero => exact ⟨fun _ => rfl, fun _ _ h => absurd h (by simp [since, lastWrite])⟩
  | succ t ih =>
    show Holds ((u.run ws ls is t).writeTlb _) ((u.run ws ls is t).writeWritten _) _
    rw [since, Itlb.writeTlb, Itlb.writeWritten]
    cases ws t with
    | none => rwa [Option.toList_none, List.append_nil]
    | some w => exact ih.write w (update_slot _ _ _) (update_slot _ _ _)

/-- **The TLB of the I-side answers it too**, of the address of one cycle in the next. -/
theorem jtlb_answer (t : ℕ) :
    (u.run ws ls is (t + 2)).answer =
      lookup (since ws t) (since ws (t + 1)) (ls t) (ls (t + 1)) := by
  have h := jtlb_holds u ws ls is t
  have h' := jtlb_holds u ws ls is (t + 1)
  have hhits : (u.run ws ls is (t + 1)).rHits = slotHits (since ws t) (ls t) := by
    funext j
    exact h.hits (ls t) j
  have hidx : (u.run ws ls is (t + 1)).hitIdx = matchIdx (matched (since ws t) (ls t)) := by
    rw [Itlb.hitIdx, hhits, matchIdx, matched]
    cases (List.finRange numTlbEntries).find? (slotHits (since ws t) (ls t)) <;> rfl
  have hany : (List.finRange numTlbEntries).any (u.run ws ls is (t + 1)).rHits =
      (matched (since ws t) (ls t)).isSome := by
    rw [hhits, matched, Bool.eq_iff_iff, List.find?_isSome, List.any_eq_true]
  have hslot (j : Fin numTlbEntries) (hj : matched (since ws t) (ls t) = some j) :
      (u.run ws ls is (t + 1)).slot (u.run ws ls is (t + 1)).hitIdx =
        (lastWrite (since ws (t + 1)) j).getD {} := by
    -- the slot may have been written again in between
    obtain ⟨e, he, -⟩ := matched_spec hj
    obtain ⟨e', he'⟩ := Option.isSome_iff_exists.1 (lastWrite_mono he (ws t))
    have hlast : lastWrite (since ws (t + 1)) j = some e' := he'
    rw [hidx, hj, hlast]
    exact (getElem_slot _ j).trans (h'.tlb j e' hlast)
  rw [← answer_eq _ _ _ _ hslot, ← hany, ← hidx]
  rfl

end Runs

/-! ## The law -/

/-- What holds of the translations. -/
structure TranslationLaw (d : Dtlb) (u : Jtlb) (ws : ℕ → Option TlbData) (ls is : ℕ → LookupIn)
    (installEn : ℕ → Bool) : Prop where
  /-- The two TLBs answer one function of the writes. -/
  dtlb : ∀ t, (d.run ws ls (t + 1)).answer = lookup (since ws t) (since ws t) (ls t) (ls t)
  itlb : ∀ t, (u.run ws is installEn (t + 2)).answer =
    lookup (since ws t) (since ws (t + 1)) (is t) (is (t + 1))
  /-- A mapped address hits if a slot that has been written is for it. -/
  hit : ∀ (l : List TlbData) (i : LookupIn), i.active = true → i.req = true →
    ((lookup l l i i).isSome = true ↔ ∃ j e, lastWrite l j = some e ∧ e.Fits i.va i.asid)
  /-- All of the answer is that of one such slot, the lowest. -/
  one : ∀ (l : List TlbData) (i : LookupIn) (a : Answer), i.active = true →
    lookup l l i i = some a →
      ∃ j e, lastWrite l j = some e ∧ e.Fits i.va i.asid ∧ a = e.answer j i.va ∧
        ∀ j' e', lastWrite l j' = some e' → e'.Fits i.va i.asid → j ≤ j'
  /-- With one slot for the address, of one of the seven sizes, it is the translation. -/
  unique : ∀ (l : List TlbData) (i : LookupIn) (j : Fin numTlbEntries) (e : TlbStored),
    i.active = true → i.req = true → lastWrite l j = some e → e.Fits i.va i.asid →
      (∀ j' e', lastWrite l j' = some e' → e'.Fits i.va i.asid → j' = j) →
        e.pagemask ∈ pageSizes →
          ∃ a k, lookup l l i i = some a ∧ a.hitIndex = BitVec.ofNat 6 j.val ∧ k ≤ 6 ∧
            e.pagemask = BitVec.ofNat 12 (2 ^ (2 * k) - 1) ∧ e.Translates i.va k a
  /-- An address that is not mapped is its own. -/
  bypass : ∀ (l : List TlbData) (i : LookupIn), i.active = false →
    ∃ a, lookup l l i i = some a ∧ a.pa = i.va.setWidth 36 ∧ a.valid = true ∧ a.dirty = true

end Mmu

end R9999
