import Mathlib.Algebra.GroupWithZero.Nat

/-!
# The sizes of tables

The sizes of the tables of a machine, as instances: no table is empty, so a literal is an
index of it.
-/

namespace Hw

instance neZero_four : NeZero 4 := ⟨by decide⟩

instance neZero_eight : NeZero 8 := ⟨by decide⟩

instance neZero_sixteen : NeZero 16 := ⟨by decide⟩

instance neZero_thirtyTwo : NeZero 32 := ⟨by decide⟩

end Hw
