import Mathlib.Data.List.Basic
import Mathlib.Data.List.TakeWhile
import R9999.Hw.Sizes

/-!
# Shift registers fed from a stream

A register of `w` bits that takes the newest bit at its lowest place, and what it holds
after all bits of a stream.  The elements of a stream give none, one or several bits each.

A stream passes through queues.  What has left the last of them and what is in them are
prefixes of what has entered the first, and the register at the front, which takes the bits
at the entry, is ahead of the register at the back by the bits in between.
-/

namespace Hw

section Register

variable {w : Nat}

/-- The register takes a bit; the oldest falls out. -/
def shiftIn (h : BitVec w) (b : Bool) : BitVec w := (h.concat b).setWidth w

/-- The register after the bits of a list, the oldest first. -/
def shiftAll (h : BitVec w) (bs : List Bool) : BitVec w := bs.foldl shiftIn h

@[simp] theorem shiftAll_nil (h : BitVec w) : shiftAll h [] = h := rfl

@[simp] theorem shiftAll_singleton (h : BitVec w) (b : Bool) : shiftAll h [b] = shiftIn h b := rfl

theorem shiftAll_append (h : BitVec w) (bs cs : List Bool) :
    shiftAll h (bs ++ cs) = shiftAll (shiftAll h bs) cs := List.foldl_append

/-- The register after more elements of a stream. -/
theorem shiftAll_flatMap_append {α : Type} (bits : α → List Bool) (h : BitVec w) (xs ys : List α) :
    shiftAll h ((xs ++ ys).flatMap bits) = shiftAll (shiftAll h (xs.flatMap bits)) (ys.flatMap bits) := by
  rw [List.flatMap_append, shiftAll_append]

end Register

section Queues

variable {α β : Type}

/-- What leaves a queue behind its first `m` elements, and what stays behind them. -/
theorem drop_take_append (l : List α) (n m : Nat) :
    (l.take n).drop m ++ (l.drop n).drop (m - n) = l.drop m := by
  obtain hn | hn := Nat.le_total n l.length
  · calc (l.take n).drop m ++ (l.drop n).drop (m - n)
        = (l.take n ++ l.drop n).drop m := by
          rw [List.drop_append, List.length_take, Nat.min_eq_left hn]
      _ = l.drop m := by rw [List.take_append_drop]
  · rw [List.take_of_length_le hn, List.drop_of_length_le hn]
    simp

/-- Behind an element that fails the test, nothing is taken. -/
theorem takeWhile_append_of_fails {p : α → Bool} {l : List α} (h : ∃ x ∈ l, p x = false)
    (m : List α) : (l ++ m).takeWhile p = l.takeWhile p := by
  obtain ⟨x, hx, hp⟩ := h
  induction l with
  | nil => cases hx
  | cons a as ih =>
    rw [List.cons_append, List.takeWhile_cons, List.takeWhile_cons]
    split
    next ha =>
      obtain rfl | hx := List.mem_cons.mp hx
      · rw [hp] at ha
        cases ha
      · rw [ih hx]
    next => rfl

/-- The elements up to any that fails the test are the first of the stream that they were
taken from. -/
theorem take_eq_of_takeWhile {p : α → Bool} {f : α → β} {l : List α} {s : List β} {n : Nat}
    (hs : (l.takeWhile p).map f <+: s) (hn : n ≤ l.length) (hp : ∀ x ∈ l.take n, p x = true) :
    (l.take n).map f = s.take n := by
  have hpre : l.take n <+: l.takeWhile p := by
    have h : (l.take n ++ l.drop n).takeWhile p = _ := List.takeWhile_append_of_pos hp
    rw [List.take_append_drop] at h
    rw [h]
    exact List.prefix_append _ _
  have hlen : (l.take n).length = n := by
    rw [List.length_take, Nat.min_eq_left hn]
  have hmap : (l.take n).map f <+: s := (hpre.map f).trans hs
  have h := List.prefix_iff_eq_take.mp hmap
  rw [List.length_map, hlen] at h
  exact h

/-- Two streams whose elements agree one by one have the same bits. -/
theorem flatMap_congr_map {γ : Type} {f : α → β} {g : α → List γ} {h : β → List γ} {l : List α}
    (hl : ∀ x ∈ l, g x = h (f x)) : l.flatMap g = (l.map f).flatMap h := by
  rw [List.flatMap_map]
  exact List.flatMap_congr hl

end Queues

end Hw
