import Mathlib.Logic.Function.Basic
import R9999.Hw.Sizes

/-!
# A direct-mapped write-back cache over a backing store

The mathematics of a direct-mapped cache, without its control: an array of slots, a
backing store, and the memory they present together.  An address is looked up in the
slot of its index and found there when the slot is valid and carries the address's tag.

`value` is the presented memory, `Coherent` says that a clean slot agrees with the store.
The lemmas say what the elementary moves of a controller do to the presented memory:
forgetting a clean slot or one whose write-back is on its way changes nothing
(`value_forget`, `value_writeBack`), neither does installing a line fetched from the store
(`value_install`), and writing a resident slot writes the memory (`value_write`).
-/

set_option linter.unusedSectionVars false

namespace Hw

universe u v w z

/-- A cache slot. -/
structure Slot (τ : Type v) (β : Type w) where
  valid : Bool
  dirty : Bool
  tag : τ
  data : β

namespace DirectMapped

variable {α : Type u} {ι : Type z} {τ : Type v} {β : Type w}
variable [DecidableEq α] [DecidableEq ι] [DecidableEq τ]
variable (idx : α → ι) (tag : α → τ)

/-- The address is resident. -/
def Has (arr : ι → Slot τ β) (x : α) : Prop :=
  (arr (idx x)).valid = true ∧ (arr (idx x)).tag = tag x

instance (arr : ι → Slot τ β) (x : α) : Decidable (Has idx tag arr x) :=
  inferInstanceAs (Decidable (_ ∧ _))

/-- The memory that the slots and the store present together. -/
def value (arr : ι → Slot τ β) (d : α → β) (x : α) : β :=
  if Has idx tag arr x then (arr (idx x)).data else d x

/-- A clean resident slot agrees with the store. -/
def Coherent (arr : ι → Slot τ β) (d : α → β) : Prop :=
  ∀ x, Has idx tag arr x → (arr (idx x)).dirty = false → (arr (idx x)).data = d x

variable {idx tag} {arr : ι → Slot τ β} {d : α → β}

theorem has_congr {arr' : ι → Slot τ β} {x : α} (h : arr' (idx x) = arr (idx x)) :
    Has idx tag arr' x ↔ Has idx tag arr x := by
  simp only [Has, h]

/-- Addresses of another index do not see an update of a slot. -/
theorem value_update_of_ne {j : ι} {e : Slot τ β} {x : α} (h : idx x ≠ j) :
    value idx tag (Function.update arr j e) d x = value idx tag arr d x := by
  unfold value
  rw [Function.update_of_ne h]
  exact if_congr (has_congr (Function.update_of_ne h _ _)) rfl rfl

theorem not_has_update_invalid {j : ι} {e : Slot τ β} (he : e.valid = false) {x : α}
    (h : idx x = j) : ¬ Has idx tag (Function.update arr j e) x := by
  simp [Has, h, he]

/-- Slots that become invalid keep the cache coherent. -/
theorem Coherent.forget (hc : Coherent idx tag arr d) {j : ι} {e : Slot τ β}
    (he : e.valid = false) : Coherent idx tag (Function.update arr j e) d := by
  intro x hx hd
  by_cases hj : idx x = j
  · exact absurd hx (not_has_update_invalid he hj)
  · rw [Function.update_of_ne hj] at hd ⊢
    exact hc x ((has_congr (Function.update_of_ne hj _ _)).mp hx) hd

/-- Forgetting a slot that is invalid or clean does not change the memory. -/
theorem value_forget (hc : Coherent idx tag arr d) {j : ι} {e : Slot τ β}
    (he : e.valid = false) (hj : (arr j).valid = true → (arr j).dirty = false) :
    value idx tag (Function.update arr j e) d = value idx tag arr d := by
  funext x
  by_cases hx : idx x = j
  · rw [value, if_neg (not_has_update_invalid he hx), value]
    split
    · next h =>
        have hv : (arr j).valid = true := hx ▸ h.1
        exact (hc x h (by rw [hx]; exact hj hv)).symm
    · rfl
  · exact value_update_of_ne hx

/-- An address that is not resident has the store's value. -/
theorem value_of_not_has {x : α} (hx : ¬ Has idx tag arr x) : value idx tag arr d x = d x := by
  rw [value, if_neg hx]

/-- Dropping a resident address makes it fall back to the store. -/
theorem value_drop {x : α} {e : Slot τ β} (hinj : ∀ y, idx y = idx x → tag y = tag x → y = x)
    (he : e.valid = false) (hx : Has idx tag arr x) :
    value idx tag (Function.update arr (idx x) e) d =
      Function.update (value idx tag arr d) x (d x) := by
  funext y
  by_cases hxy : y = x
  · subst hxy
    rw [Function.update_self, value_of_not_has (not_has_update_invalid he rfl)]
  · rw [Function.update_of_ne hxy]
    by_cases hy : idx y = idx x
    · have hn : ¬ Has idx tag arr y := by
        intro h
        exact hxy (hinj y hy (by rw [← h.2, hy, hx.2]))
      rw [value_of_not_has (not_has_update_invalid he hy), value_of_not_has hn]
    · exact value_update_of_ne hy

/-- Forgetting a resident address while its data is written to the store does not change
the memory. -/
theorem value_writeBack {x : α} {e : Slot τ β} (hinj : ∀ y, idx y = idx x → tag y = tag x → y = x)
    (he : e.valid = false) (hx : Has idx tag arr x) :
    value idx tag (Function.update arr (idx x) e) (Function.update d x (arr (idx x)).data) =
      value idx tag arr d := by
  funext y
  by_cases hy : idx y = idx x
  · rw [value, if_neg (not_has_update_invalid he hy)]
    by_cases hxy : y = x
    · subst hxy
      rw [Function.update_self, value, if_pos hx]
    · have hn : ¬ Has idx tag arr y := by
        intro h
        exact hxy (hinj y hy (by rw [← h.2, hy, hx.2]))
      rw [Function.update_of_ne hxy, value, if_neg hn]
  · rw [value_update_of_ne hy]
    have hxy : y ≠ x := fun h => hy (by rw [h])
    simp only [value, Function.update_of_ne hxy]

/-- A write of the store at an address that is not resident keeps the cache coherent. -/
theorem Coherent.store (hc : Coherent idx tag arr d) {x : α} (hx : ¬ Has idx tag arr x)
    (data : β) : Coherent idx tag arr (Function.update d x data) := by
  intro y hy hd
  have hxy : y ≠ x := fun h => hx (h ▸ hy)
  rw [Function.update_of_ne hxy]
  exact hc y hy hd

/-- A write of the store at an address that is not resident writes the memory. -/
theorem value_store {x : α} (hx : ¬ Has idx tag arr x) (data : β) :
    value idx tag arr (Function.update d x data) =
      Function.update (value idx tag arr d) x data := by
  funext y
  by_cases hxy : y = x
  · subst hxy
    simp [value, hx]
  · simp [value, Function.update_of_ne hxy]

/-- Installing a line fetched from the store, over a slot that held nothing, does not
change the memory. -/
theorem value_install {x : α} {e : Slot τ β} (hinj : ∀ y, idx y = idx x → tag y = tag x → y = x)
    (ht : e.tag = tag x) (hd : e.data = d x) (hj : (arr (idx x)).valid = false) :
    value idx tag (Function.update arr (idx x) e) d = value idx tag arr d := by
  funext y
  by_cases hy : idx y = idx x
  · have hn : ¬ Has idx tag arr y := by
      intro h
      simp [Has, hy, hj] at h
    rw [value, value, if_neg hn]
    split
    · next h =>
        have hyx : y = x := by
          apply hinj y hy
          have := h.2
          rw [hy, Function.update_self, ht] at this
          exact this.symm
        rw [hy, Function.update_self, hd, hyx]
    · rfl
  · exact value_update_of_ne hy

theorem Coherent.install (hc : Coherent idx tag arr d) {x : α} {e : Slot τ β}
    (hinj : ∀ y, idx y = idx x → tag y = tag x → y = x) (ht : e.tag = tag x)
    (hd : e.data = d x) : Coherent idx tag (Function.update arr (idx x) e) d := by
  intro y hy hdy
  by_cases hj : idx y = idx x
  · have hyx : y = x := by
      apply hinj y hj
      have := hy.2
      rw [hj, Function.update_self, ht] at this
      exact this.symm
    rw [hj, Function.update_self, hd, hyx]
  · rw [Function.update_of_ne hj] at hdy ⊢
    exact hc y ((has_congr (Function.update_of_ne hj _ _)).mp hy) hdy

/-- Replacing the data of a resident address writes the memory. -/
theorem value_write {x : α} {e : Slot τ β} (hinj : ∀ y, idx y = idx x → tag y = tag x → y = x)
    (hx : Has idx tag arr x) (hv : e.valid = true) (ht : e.tag = (arr (idx x)).tag) :
    value idx tag (Function.update arr (idx x) e) d =
      Function.update (value idx tag arr d) x e.data := by
  funext y
  by_cases hy : idx y = idx x
  · by_cases hyx : y = x
    · subst hyx
      rw [Function.update_self, value, if_pos]
      · rw [Function.update_self]
      · simp [Has, hv, ht, hx.2]
    · have hn : ∀ a : ι → Slot τ β, (a (idx x)).tag = (arr (idx x)).tag →
          ¬ Has idx tag a y := by
        intro a ha h
        exact hyx (hinj y hy (by rw [← h.2, hy, ha, hx.2]))
      rw [Function.update_of_ne hyx, value, value, if_neg (hn _ (by simp [ht])),
        if_neg (hn _ rfl)]
  · have hyx : y ≠ x := fun h => hy (by rw [h])
    rw [value_update_of_ne hy, Function.update_of_ne hyx]

theorem Coherent.write (hc : Coherent idx tag arr d) {j : ι} {e : Slot τ β}
    (hd : e.dirty = true) : Coherent idx tag (Function.update arr j e) d := by
  intro y hy hdy
  by_cases hj : idx y = j
  · rw [hj, Function.update_self, hd] at hdy
    exact absurd hdy (by simp)
  · rw [Function.update_of_ne hj] at hdy ⊢
    exact hc y ((has_congr (Function.update_of_ne hj _ _)).mp hy) hdy

end DirectMapped

end Hw
