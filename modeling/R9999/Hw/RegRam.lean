import Mathlib.Logic.Function.Basic
import R9999.Hw.Sizes

/-!
# A one-port RAM with registered inputs and a registered output

The memory macro modelled here registers its address, its write enable and its
write data, and it registers its read data once more.  A write presented in one
cycle therefore reaches the array at the end of the *next* cycle, and a read
returns two cycles after its address.

Proofs about a design built from such macros want to speak about one array.  That
array is `RegRam.contents`: the physical array with the write waiting in the input
registers already applied.  It evolves as if every write took effect at once
(`RegRam.contents_clock`), and the read port shows it whenever no write is in
flight (`RegRam.rdData_clock`, `RegRam.ram_eq_contents`).
-/

namespace Hw

universe u

/-- The state of the macro: the array, its three input registers and its output
register. -/
structure RegRam (α : Type u) where
  ram : Nat → α
  addr : Nat
  wrEn : Bool
  wrData : α
  rdData : α

namespace RegRam

variable {α : Type u}

/-- One clock edge with the given address, write data and write enable on the
input pins. -/
def clock (m : RegRam α) (addr : Nat) (wrData : α) (wrEn : Bool) : RegRam α where
  ram := if m.wrEn then Function.update m.ram m.addr m.wrData else m.ram
  addr := addr
  wrEn := wrEn
  wrData := wrData
  rdData := m.ram m.addr

/-- The array with the waiting write applied: what a reader that arrives later will
find. -/
def contents (m : RegRam α) : Nat → α :=
  if m.wrEn then Function.update m.ram m.addr m.wrData else m.ram

/-- Seen through `contents`, a write happens in the cycle that presents it. -/
theorem contents_clock (m : RegRam α) (addr : Nat) (wrData : α) (wrEn : Bool) :
    (m.clock addr wrData wrEn).contents =
      if wrEn then Function.update m.contents addr wrData else m.contents := by
  cases wrEn <;> rfl

@[simp] theorem addr_clock (m : RegRam α) (addr : Nat) (wrData : α) (wrEn : Bool) :
    (m.clock addr wrData wrEn).addr = addr := rfl

@[simp] theorem wrEn_clock (m : RegRam α) (addr : Nat) (wrData : α) (wrEn : Bool) :
    (m.clock addr wrData wrEn).wrEn = wrEn := rfl

theorem rdData_clock (m : RegRam α) (addr : Nat) (wrData : α) (wrEn : Bool) :
    (m.clock addr wrData wrEn).rdData = m.ram m.addr := rfl

/-- With no write waiting, the physical array and the contents agree. -/
theorem ram_eq_contents (m : RegRam α) (h : m.wrEn = false) : m.ram = m.contents := by
  simp [contents, h]

end RegRam

end Hw
