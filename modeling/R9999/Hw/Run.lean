import Mathlib.Data.List.Basic
import R9999.Hw.Sizes

/-!
# Runs of a clocked machine

A clocked machine is a function from a state and the inputs of a cycle to the next state.
This module has the rules about its runs: an invariant that every step keeps holds after
every run, a conservation law of one step adds up over a run, and a quantity that every
step decreases runs out.
-/

namespace Hw

variable {σ ι : Type*} (next : σ → ι → σ)

/-- The state after a run. -/
def run (s : σ) (is : List ι) : σ := is.foldl next s

/-- Every step of the run meets a condition on the state before it and its inputs. -/
def RunOk (P : σ → ι → Prop) : σ → List ι → Prop
  | _, [] => True
  | s, i :: is => P s i ∧ RunOk P (next s i) is

instance RunOk.decidable (P : σ → ι → Prop) [∀ s i, Decidable (P s i)] :
    ∀ s is, Decidable (RunOk next P s is)
  | _, [] => inferInstanceAs (Decidable True)
  | s, i :: is =>
    have := RunOk.decidable P (next s i) is
    inferInstanceAs (Decidable (P s i ∧ RunOk next P (next s i) is))

/-- The sum of a quantity over the steps of a run. -/
def total (f : σ → ι → Nat) : σ → List ι → Nat
  | _, [] => 0
  | s, i :: is => f s i + total f (next s i) is

variable {next}

@[simp] theorem run_nil (s : σ) : run next s [] = s := rfl

@[simp] theorem run_cons (s : σ) (i : ι) (is : List ι) :
    run next s (i :: is) = run next (next s i) is := rfl

theorem run_append (s : σ) (is js : List ι) :
    run next s (is ++ js) = run next (run next s is) js := List.foldl_append

/-- An invariant of the steps that meet a condition is an invariant of the runs that
do. -/
theorem RunOk.invariant {P : σ → ι → Prop} {I : σ → Prop}
    (hstep : ∀ s i, I s → P s i → I (next s i)) {s : σ} (hs : I s) {is : List ι}
    (h : RunOk next P s is) : I (run next s is) := by
  induction is generalizing s with
  | nil => exact hs
  | cons i is ih => exact ih (hstep s i hs h.1) h.2

/-- What an invariant and a condition on the steps imply at one step holds at every step of
the runs that meet the condition. -/
theorem RunOk.imp {P Q : σ → ι → Prop} {I : σ → Prop}
    (hstep : ∀ s i, I s → P s i → I (next s i)) (hQ : ∀ s i, I s → P s i → Q s i) {s : σ}
    (hs : I s) {is : List ι} (h : RunOk next P s is) : RunOk next Q s is := by
  induction is generalizing s with
  | nil => trivial
  | cons i is ih => exact ⟨hQ s i hs h.1, ih (hstep s i hs h.1) h.2⟩

/-- An invariant of every step is an invariant of every run. -/
theorem run_invariant {I : σ → Prop} (hstep : ∀ s i, I s → I (next s i)) {s : σ} (hs : I s)
    (is : List ι) : I (run next s is) := by
  induction is generalizing s with
  | nil => exact hs
  | cons i is ih => exact ih (hstep s i hs)

/-- A quantity that every step decreases runs out: what the steps take of it adds up to no
more than there was. -/
theorem RunOk.total_le {P : σ → ι → Prop} {I : σ → Prop} {f : σ → ι → Nat} {m : σ → Nat}
    (hI : ∀ s i, I s → P s i → I (next s i))
    (hstep : ∀ s i, I s → P s i → f s i + m (next s i) ≤ m s) {s : σ} (hs : I s) {is : List ι}
    (h : RunOk next P s is) : total next f s is ≤ m s := by
  induction is generalizing s with
  | nil => exact Nat.zero_le _
  | cons i is ih =>
    calc total next f s (i :: is) = f s i + total next f (next s i) is := rfl
      _ ≤ f s i + m (next s i) := Nat.add_le_add_left (ih (hI s i hs h.1) h.2) _
      _ ≤ m s := hstep s i hs h.1

/-- If every step moves as much into a place as it moves out of it or leaves there, so
does every run. -/
theorem total_conserved {I : σ → Prop} (hI : ∀ s i, I s → I (next s i)) {here : σ → Nat}
    {come go : σ → ι → Nat}
    (hstep : ∀ s i, I s → come s i + here s = go s i + here (next s i)) {s : σ} (hs : I s)
    (is : List ι) : total next come s is + here s = total next go s is + here (run next s is) := by
  induction is generalizing s with
  | nil => rfl
  | cons i is ih =>
    have h1 := hstep s i hs
    have h2 := ih (hI s i hs)
    simp only [total, run_cons]
    omega

end Hw
