import Mathlib.Data.List.Induction
import Mathlib.Data.List.Nodup
import Mathlib.Logic.Function.Basic
import R9999.Hw.Sizes

/-!
# Register renaming

A renamed register file keeps a map from its registers to their names and a list of the
free names, each twice: as of the youngest operation and as of the youngest retired one.
This module has the three operations on them, the law of ownership that ties them to the
renames in flight, and what follows from it: every name is owned exactly once, and no name
is freed while it is free.

The carriers are arbitrary types of registers and names.
-/

namespace Hw

/-- A renamed destination: the register, the name it is given and the name it had. -/
structure Rename (A P : Type*) where
  reg : A
  new : P
  old : P

/-- The maps and the free lists, speculative and retired. -/
structure Maps (A P : Type*) where
  rat : A → P
  retireRat : A → P
  free : P → Bool
  retireFree : P → Bool

variable {A P : Type*} [DecidableEq A]

namespace Maps

/-- Give the register `a` the name `n`. -/
def alloc [DecidableEq P] (m : Maps A P) (a : A) (n : P) : Maps A P :=
  { m with rat := Function.update m.rat a n, free := Function.update m.free n false }

/-- Retire a rename: its new name is the retired one, and its old name is free. -/
def retire [DecidableEq P] (m : Maps A P) (r : Rename A P) : Maps A P :=
  { m with
    retireRat := Function.update m.retireRat r.reg r.new
    retireFree := Function.update (Function.update m.retireFree r.new false) r.old true
    free := Function.update m.free r.old true }

/-- Undo every rename that has not retired. -/
def flush (m : Maps A P) : Maps A P := { m with rat := m.retireRat, free := m.retireFree }

/-- Rename several registers, in order. -/
def allocs [DecidableEq P] (m : Maps A P) (l : List (A × P)) : Maps A P :=
  l.foldl (fun m x => m.alloc x.1 x.2) m

/-- Retire several renames, in order. -/
def retires [DecidableEq P] (m : Maps A P) (l : List (Rename A P)) : Maps A P :=
  l.foldl retire m

end Maps

/-- The map after the renames in `q`, oldest first. -/
def replay (f : A → P) (q : List (Rename A P)) : A → P :=
  q.foldl (fun f r => Function.update f r.reg r.new) f

@[simp] theorem replay_nil (f : A → P) : replay f [] = f := rfl

@[simp] theorem replay_cons (f : A → P) (r : Rename A P) (q : List (Rename A P)) :
    replay f (r :: q) = replay (Function.update f r.reg r.new) q := rfl

theorem replay_append (f : A → P) (q t : List (Rename A P)) :
    replay f (q ++ t) = replay (replay f q) t := List.foldl_append

/-- The renames that give the registers of `l` their names, in order. -/
def renames : (A → P) → List (A × P) → List (Rename A P)
  | _, [] => []
  | f, (a, n) :: l => ⟨a, n, f a⟩ :: renames (Function.update f a n) l

/-- A register keeps its name or has the name of a rename. -/
theorem replay_eq (f : A → P) (q : List (Rename A P)) (a : A) :
    replay f q a = f a ∨ ∃ r ∈ q, r.reg = a ∧ replay f q a = r.new := by
  induction q generalizing f with
  | nil => exact .inl rfl
  | cons r q ih =>
    rw [replay_cons]
    obtain h | ⟨t, ht, hreg, h⟩ := ih (Function.update f r.reg r.new)
    · by_cases ha : a = r.reg
      · subst ha
        rw [Function.update_self] at h
        exact .inr ⟨r, List.mem_cons_self, rfl, h⟩
      · rw [Function.update_of_ne ha] at h
        exact .inl h
    · exact .inr ⟨t, List.mem_cons_of_mem r ht, hreg, h⟩

/-- Each rename has as its old name the name that its register had just before it. -/
def Chained : (A → P) → List (Rename A P) → Prop
  | _, [] => True
  | f, r :: q => r.old = f r.reg ∧ Chained (Function.update f r.reg r.new) q

theorem chained_append {f : A → P} {q t : List (Rename A P)} :
    Chained f (q ++ t) ↔ Chained f q ∧ Chained (replay f q) t := by
  induction q generalizing f with
  | nil => simp [Chained]
  | cons r q ih =>
    simp only [List.cons_append, Chained, replay_cons, ih, and_assoc]

/-- The law of ownership for the renames `q` that have not retired, oldest first. -/
structure Owned (m : Maps A P) (q : List (Rename A P)) : Prop where
  rat : m.rat = replay m.retireRat q
  chained : Chained m.retireRat q
  inj : Function.Injective m.retireRat
  retireFree : ∀ n, m.retireFree n = true ↔ ∀ a, m.retireRat a ≠ n
  /-- The new names are not those of retired registers, and they differ. -/
  fresh : ∀ r ∈ q, m.retireFree r.new = true
  nodup : (q.map Rename.new).Nodup
  free : ∀ n, m.free n = true ↔ m.retireFree n = true ∧ ∀ r ∈ q, r.new ≠ n

namespace Owned

variable {m : Maps A P} {q : List (Rename A P)}

/-- A renamed file starts with a name for each register and the others free. -/
theorem init {f : A → P} {free : P → Bool} (hf : Function.Injective f)
    (hfree : ∀ n, free n = true ↔ ∀ a, f a ≠ n) : Owned ⟨f, f, free, free⟩ [] where
  rat := rfl
  chained := trivial
  inj := hf
  retireFree := hfree
  fresh := by simp
  nodup := List.nodup_nil
  free := by simp

theorem mapped_not_retireFree (h : Owned m q) (a : A) : m.retireFree (m.retireRat a) = false := by
  rw [← Bool.not_eq_true]
  intro hfree
  exact (h.retireFree _).mp hfree a rfl

/-- The name of a rename in flight is not the name of a retired register. -/
theorem new_ne_mapped (h : Owned m q) {r : Rename A P} (hr : r ∈ q) (a : A) :
    r.new ≠ m.retireRat a := by
  intro heq
  have hfresh := h.fresh r hr
  rw [heq, h.mapped_not_retireFree] at hfresh
  cases hfresh

theorem alloc [DecidableEq P] (h : Owned m q) {n : P} (hn : m.free n = true) (a : A) :
    Owned (m.alloc a n) (q ++ [⟨a, n, m.rat a⟩]) := by
  obtain ⟨hnfree, hnq⟩ := (h.free n).mp hn
  constructor
  case rat =>
    change Function.update m.rat a n = replay m.retireRat (q ++ [⟨a, n, m.rat a⟩])
    rw [replay_append, ← h.rat, replay_cons, replay_nil]
  case chained =>
    refine chained_append.mpr ⟨h.chained, ?_, trivial⟩
    exact congrFun h.rat a
  case inj => exact h.inj
  case retireFree => exact h.retireFree
  case fresh =>
    intro r hr
    obtain hr | hr := List.mem_append.mp hr
    · exact h.fresh r hr
    · rw [List.mem_singleton.mp hr]
      exact hnfree
  case nodup =>
    rw [List.map_append]
    refine h.nodup.append (List.nodup_singleton n) ?_
    intro t ht hn'
    obtain ⟨r, hr, rfl⟩ := List.mem_map.mp ht
    exact hnq r hr (List.mem_singleton.mp hn')
  case free =>
    intro t
    change Function.update m.free n false t = true ↔ m.retireFree t = true ∧ _
    by_cases ht : t = n
    · subst ht
      rw [Function.update_self]
      refine ⟨fun hf => (Bool.false_ne_true hf).elim, ?_⟩
      rintro ⟨-, hall⟩
      exact (hall _ (List.mem_append_right q (List.mem_singleton_self _)) rfl).elim
    · rw [Function.update_of_ne ht, h.free t]
      simp only [List.forall_mem_append, List.forall_mem_singleton]
      exact ⟨fun ⟨hf, hall⟩ => ⟨hf, hall, Ne.symm ht⟩, fun ⟨hf, hall, _⟩ => ⟨hf, hall⟩⟩

/-- The oldest rename retires. -/
theorem retire [DecidableEq P] {r : Rename A P} (h : Owned m (r :: q)) : Owned (m.retire r) q := by
  obtain ⟨hold, hchain⟩ := h.chained
  have hne : r.new ≠ r.old := by
    rw [hold]
    exact h.new_ne_mapped List.mem_cons_self _
  have hq (t : Rename A P) (ht : t ∈ q) : t.new ≠ r.old := by
    rw [hold]
    exact h.new_ne_mapped (List.mem_cons_of_mem r ht) _
  have hnodup := List.nodup_cons.mp h.nodup
  constructor
  case rat => exact h.rat
  case chained => exact hchain
  case inj =>
    intro a b hab
    change Function.update m.retireRat r.reg r.new a =
      Function.update m.retireRat r.reg r.new b at hab
    have hnew := h.new_ne_mapped (List.mem_cons_self (a := r) (l := q))
    by_cases ha : a = r.reg <;> by_cases hb : b = r.reg
    · rw [ha, hb]
    · rw [ha, Function.update_self, Function.update_of_ne hb] at hab
      exact (hnew b hab).elim
    · rw [hb, Function.update_self, Function.update_of_ne ha] at hab
      exact (hnew a hab.symm).elim
    · rw [Function.update_of_ne ha, Function.update_of_ne hb] at hab
      exact h.inj hab
  case retireFree =>
    intro n
    change Function.update (Function.update m.retireFree r.new false) r.old true n = true ↔
      ∀ a, Function.update m.retireRat r.reg r.new a ≠ n
    by_cases hn : n = r.old
    · -- the old name has lost its only register
      rw [hn, Function.update_self]
      refine ⟨fun _ a ha => ?_, fun _ => rfl⟩
      by_cases hreg : a = r.reg
      · rw [hreg, Function.update_self] at ha
        exact hne ha
      · rw [Function.update_of_ne hreg, hold] at ha
        exact hreg (h.inj ha)
    · rw [Function.update_of_ne hn]
      by_cases hnew : n = r.new
      · rw [hnew, Function.update_self]
        refine ⟨fun hf => (Bool.false_ne_true hf).elim, fun hall => ?_⟩
        exact (hall r.reg (Function.update_self ..)).elim
      · rw [Function.update_of_ne hnew, h.retireFree]
        refine ⟨fun hall a ha => ?_, fun hall a ha => ?_⟩
        · by_cases hreg : a = r.reg
          · rw [hreg, Function.update_self] at ha
            exact hnew ha.symm
          · rw [Function.update_of_ne hreg] at ha
            exact hall a ha
        · have hreg : a ≠ r.reg := by
            rintro rfl
            exact hn (ha.symm.trans hold.symm)
          exact hall a ((Function.update_of_ne hreg _ _).trans ha)
  case fresh =>
    intro t ht
    have hnew : t.new ≠ r.new := by
      intro heq
      exact hnodup.1 (heq ▸ List.mem_map_of_mem ht)
    change Function.update (Function.update m.retireFree r.new false) r.old true t.new = true
    rw [Function.update_of_ne (hq t ht), Function.update_of_ne hnew]
    exact h.fresh t (List.mem_cons_of_mem r ht)
  case nodup => exact hnodup.2
  case free =>
    intro n
    change Function.update m.free r.old true n = true ↔
      Function.update (Function.update m.retireFree r.new false) r.old true n = true ∧
        ∀ t ∈ q, t.new ≠ n
    by_cases hn : n = r.old
    · rw [hn, Function.update_self, Function.update_self]
      exact ⟨fun _ => ⟨rfl, hq⟩, fun _ => rfl⟩
    · rw [Function.update_of_ne hn, Function.update_of_ne hn, h.free n]
      by_cases hnew : n = r.new
      · rw [hnew, Function.update_self]
        exact ⟨fun hf => (hf.2 r List.mem_cons_self rfl).elim, fun hf =>
          (Bool.false_ne_true hf.1).elim⟩
      · rw [Function.update_of_ne hnew, List.forall_mem_cons]
        exact ⟨fun ⟨hf, _, hall⟩ => ⟨hf, hall⟩, fun ⟨hf, hall⟩ => ⟨hf, Ne.symm hnew, hall⟩⟩

theorem flush (h : Owned m q) : Owned m.flush [] where
  rat := rfl
  chained := trivial
  inj := h.inj
  retireFree := h.retireFree
  fresh := by simp
  nodup := List.nodup_nil
  free := by simp [Maps.flush]

/-! ## Several renames in a cycle -/

/-- The registers of `l` are renamed in order, to names that are free and differ. -/
theorem allocs [DecidableEq P] (h : Owned m q) {l : List (A × P)}
    (hfree : ∀ x ∈ l, m.free x.2 = true) (hnodup : (l.map Prod.snd).Nodup) :
    Owned (m.allocs l) (q ++ renames m.rat l) := by
  induction l generalizing m q with
  | nil => simpa [Maps.allocs, renames] using h
  | cons x l ih =>
    obtain ⟨a, n⟩ := x
    obtain ⟨hn, hnodup⟩ := List.nodup_cons.mp hnodup
    have h' := h.alloc (hfree (a, n) List.mem_cons_self) a
    have hfree' (x : A × P) (hx : x ∈ l) : (m.alloc a n).free x.2 = true := by
      have hne : x.2 ≠ n := fun heq => hn (List.mem_map.mpr ⟨x, hx, heq⟩)
      exact (Function.update_of_ne hne _ _).trans (hfree x (List.mem_cons_of_mem _ hx))
    have := ih h' hfree' hnodup
    rwa [List.append_assoc] at this

/-- The oldest renames retire in order. -/
theorem retires [DecidableEq P] {l : List (Rename A P)} (h : Owned m (l ++ q)) :
    Owned (m.retires l) q := by
  induction l generalizing m with
  | nil => exact h
  | cons r l ih => exact ih h.retire

/-! ## What ownership means -/

/-- A name is free, or the name of a retired register, or the name of one rename in
flight, and never two of these. -/
theorem once (h : Owned m q) (n : P) :
    (m.free n = true ∧ (∀ a, m.retireRat a ≠ n) ∧ ∀ r ∈ q, r.new ≠ n) ∨
      ((∃ a, m.retireRat a = n) ∧ m.free n = false ∧ ∀ r ∈ q, r.new ≠ n) ∨
      (n ∈ q.map Rename.new ∧ m.free n = false ∧ ∀ a, m.retireRat a ≠ n) := by
  cases hfree : m.free n with
  | true =>
    obtain ⟨hr, hq⟩ := (h.free n).mp hfree
    exact .inl ⟨rfl, (h.retireFree n).mp hr, hq⟩
  | false =>
    by_cases hmapped : ∃ a, m.retireRat a = n
    · obtain ⟨a, rfl⟩ := hmapped
      exact .inr (.inl ⟨⟨a, rfl⟩, rfl, fun r hr => h.new_ne_mapped hr a⟩)
    · have hmapped : ∀ a, m.retireRat a ≠ n := not_exists.mp hmapped
      refine .inr (.inr ⟨?_, rfl, hmapped⟩)
      by_contra hq
      have hq : ∀ r ∈ q, r.new ≠ n := fun r hr heq => hq (heq ▸ List.mem_map_of_mem hr)
      have := (h.free n).mpr ⟨(h.retireFree n).mpr hmapped, hq⟩
      rw [hfree] at this
      cases this

/-- The map stays injective through every prefix of the renames in flight. -/
theorem replay_injective (h : Owned m q) {pre post : List (Rename A P)} (hq : q = pre ++ post) :
    Function.Injective (replay m.retireRat pre) := by
  induction pre using List.reverseRecOn generalizing post with
  | nil => exact h.inj
  | append_singleton pre r ih =>
    have hq' : q = pre ++ r :: post := by simpa using hq
    have ih := ih hq'
    -- the new name of `r` is not yet in the map
    have hnew (a : A) : replay m.retireRat pre a ≠ r.new := by
      obtain heq | ⟨t, ht, -, heq⟩ := replay_eq m.retireRat pre a
      · rw [heq]
        exact (h.new_ne_mapped (by simp [hq]) a).symm
      · rw [heq]
        have hnodup := h.nodup
        rw [hq] at hnodup
        simp only [List.map_append, List.map_cons, List.nodup_append, List.append_assoc,
          List.singleton_append] at hnodup
        exact hnodup.2.2 _ (List.mem_map_of_mem ht) _ List.mem_cons_self
    rw [replay_append, replay_cons, replay_nil]
    intro a b hab
    by_cases ha : a = r.reg <;> by_cases hb : b = r.reg
    · rw [ha, hb]
    · rw [ha, Function.update_self, Function.update_of_ne hb] at hab
      exact (hnew b hab.symm).elim
    · rw [hb, Function.update_self, Function.update_of_ne ha] at hab
      exact (hnew a hab).elim
    · rw [Function.update_of_ne ha, Function.update_of_ne hb] at hab
      exact ih hab

/-- The old name of a rename is the name that its register had just before it. -/
theorem old_eq (h : Owned m q) {pre post : List (Rename A P)} {r : Rename A P}
    (hq : q = pre ++ r :: post) : r.old = replay m.retireRat pre r.reg := by
  have hchain := h.chained
  rw [hq, chained_append] at hchain
  exact hchain.2.1

/-- A name of the map is not free. -/
theorem replay_not_free (h : Owned m q) {pre post : List (Rename A P)} (hq : q = pre ++ post)
    (a : A) : m.free (replay m.retireRat pre a) = false := by
  rw [← Bool.not_eq_true]
  intro hfree
  obtain ⟨hr, hnew⟩ := (h.free _).mp hfree
  obtain heq | ⟨t, ht, -, heq⟩ := replay_eq m.retireRat pre a
  · rw [heq, h.mapped_not_retireFree] at hr
    cases hr
  · exact hnew t (by simp [hq, ht]) heq.symm

/-- The old name of a rename in flight is not free. -/
theorem old_not_free (h : Owned m q) {r : Rename A P} (hr : r ∈ q) : m.free r.old = false := by
  obtain ⟨pre, post, hq⟩ := List.append_of_mem hr
  rw [h.old_eq hq]
  exact h.replay_not_free hq r.reg

/-- No name is freed twice. -/
theorem olds_nodup [DecidableEq P] (h : Owned m q) : (q.map Rename.old).Nodup := by
  induction q generalizing m with
  | nil => exact List.nodup_nil
  | cons r q ih =>
    refine List.nodup_cons.mpr ⟨fun hmem => ?_, ih h.retire⟩
    obtain ⟨t, ht, heq⟩ := List.mem_map.mp hmem
    have hfree : (m.retire r).free r.old = true := Function.update_self ..
    rw [← heq, h.retire.old_not_free ht] at hfree
    cases hfree

/-- A register that is never renamed keeps its name, and no rename has it. -/
theorem untouched (h : Owned m q) {a : A} (ha : ∀ r ∈ q, r.reg ≠ a) {r : Rename A P}
    (hr : r ∈ q) : r.new ≠ m.retireRat a ∧ r.old ≠ m.retireRat a := by
  refine ⟨h.new_ne_mapped hr a, ?_⟩
  obtain ⟨pre, post, hq⟩ := List.append_of_mem hr
  rw [h.old_eq hq]
  have hsame : replay m.retireRat pre a = m.retireRat a := by
    obtain heq | ⟨t, ht, hreg, -⟩ := replay_eq m.retireRat pre a
    · exact heq
    · exact (ha t (by simp [hq, ht]) hreg).elim
  rw [← hsame]
  exact fun heq => ha r hr (h.replay_injective hq heq)

end Owned

end Hw
