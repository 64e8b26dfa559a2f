import Mathlib.Logic.Function.Basic
import Mathlib.Data.Nat.Basic
import R9999.Hw.Sizes

/-!
# Lines, masks, memory operations and cache geometry

The vocabulary shared by the two caches, the arbiter between them and DRAM
(`machine.vh`).  A cache line is its sixteen bytes, a physical address is used by
this part of the machine only through its line number (the address without its low
four bits), and the sizes of the caches are parameters, as they are macros in the
source.
-/

namespace R9999

/-- A sixteen-byte cache line. -/
abbrev Line := Fin 16 → BitVec 8

/-- A byte-enable mask over a line. -/
abbrev Mask := Fin 16 → Bool

/-- The line number of a physical address, `pa[PA_WIDTH-1:4]`. -/
abbrev LineAddr := Nat

/-- The mask `16'hffff`. -/
def Mask.full : Mask := fun _ => true

/-- The mask `16'h0`. -/
def Mask.empty : Mask := fun _ => false

/-- A masked write of `new` over `old`. -/
def Line.merge (mask : Mask) (new old : Line) : Line :=
  fun b => if mask b then new b else old b

@[simp] theorem Line.merge_full (new old : Line) : Line.merge Mask.full new old = new := by
  funext b
  simp [Line.merge, Mask.full]

/-- The line whose bytes are all zero. -/
def Line.zero : Line := fun _ => 0

/-- `mem_op_t`: the operations of the memory pipe and of the ports between the
caches. -/
inductive MemOp where
  | lb | lbu | lh | lhu | lw | sb | sh | sw | swr | swl | lwr | lwl | sc | tlbp | ld | sd
  | lwu | ldl | ldr | sdl | sdr | ll | lld | scd | invl | mov | wb | chwb | chwbinv | chinv
  | snoopInvl | pgdrop
  deriving DecidableEq, Repr

/-- The five-bit code of an operation. -/
def MemOp.code : MemOp → Nat
  | .lb => 0 | .lbu => 1 | .lh => 2 | .lhu => 3 | .lw => 4 | .sb => 5 | .sh => 6 | .sw => 7
  | .swr => 8 | .swl => 9 | .lwr => 10 | .lwl => 11 | .sc => 12 | .tlbp => 13 | .ld => 14
  | .sd => 15 | .lwu => 16 | .ldl => 17 | .ldr => 18 | .sdl => 19 | .sdr => 20 | .ll => 21
  | .lld => 22 | .scd => 23 | .invl => 24 | .mov => 25 | .wb => 26 | .chwb => 27
  | .chwbinv => 28 | .chinv => 29 | .snoopInvl => 30 | .pgdrop => 31

/-- The sizes of the two caches, in lines.  The L1D is virtually indexed: its index is
a colour followed by the index within a page, so it has `colours * pgLines` sets. -/
structure Geometry where
  /-- `L2_LINES`, the number of (direct-mapped) L2 lines. -/
  l2Lines : Nat
  /-- The number of lines in a page. -/
  pgLines : Nat
  /-- The number of L1D sets that share an index within the page. -/
  colours : Nat
  /-- `N_MQ_ENTRIES`, the length of the L1D's miss queue. -/
  mqEntries : Nat
  l2Lines_pos : 0 < l2Lines
  pgLines_pos : 0 < pgLines
  colours_pos : 0 < colours

namespace Geometry

variable (g : Geometry)

/-- The L2 index of a line, `addr[LG_L2_LINES+3:4]`. -/
def l2Idx (x : LineAddr) : Nat := x % g.l2Lines

/-- The L2 tag of a line, `addr[PA_WIDTH-1:LG_L2_LINES+4]`. -/
def l2Tag (x : LineAddr) : Nat := x / g.l2Lines

/-- The line named by an L2 tag and index, `{tag, idx, 4'd0}`. -/
def l2Line (tag idx : Nat) : LineAddr := tag * g.l2Lines + idx

/-- The index after `idx`, in the index's own width. -/
def l2Succ (idx : Nat) : Nat := (idx + 1) % g.l2Lines

theorem l2Idx_lt (x : LineAddr) : g.l2Idx x < g.l2Lines :=
  Nat.mod_lt _ g.l2Lines_pos

theorem l2Succ_lt (idx : Nat) : g.l2Succ idx < g.l2Lines :=
  Nat.mod_lt _ g.l2Lines_pos

/-- Tag and index determine the line. -/
@[simp] theorem l2Line_tag_idx (x : LineAddr) : g.l2Line (g.l2Tag x) (g.l2Idx x) = x :=
  Nat.div_add_mod' x g.l2Lines

theorem l2Idx_l2Line (tag : Nat) {idx : Nat} (h : idx < g.l2Lines) :
    g.l2Idx (g.l2Line tag idx) = idx := by
  rw [l2Idx, l2Line, Nat.mul_comm, Nat.mul_add_mod, Nat.mod_eq_of_lt h]

theorem l2Tag_l2Line (tag : Nat) {idx : Nat} (h : idx < g.l2Lines) :
    g.l2Tag (g.l2Line tag idx) = tag := by
  rw [l2Tag, l2Line, Nat.mul_comm, Nat.mul_add_div g.l2Lines_pos, Nat.div_eq_of_lt h,
    Nat.add_zero]

/-- `L1D_NUM_SETS`. -/
def l1Sets : Nat := g.colours * g.pgLines

/-- The L1D set a (virtual) line is looked up in, `addr[IDX_STOP-1:IDX_START]`. -/
def l1Idx (x : Nat) : Nat := x % g.l1Sets

/-- The L1D tag of a physical line, `addr[PA_WIDTH-1:TAG_LSB]`: its page. -/
def l1Tag (x : LineAddr) : Nat := x / g.pgLines

/-- The line named by an L1D tag and the set it is stored in: only the part of the index
within the page belongs to the address (`w_line_pa`). -/
def l1Line (tag idx : Nat) : LineAddr := tag * g.pgLines + idx % g.pgLines

/-- The colour of an L1D set. -/
def colour (idx : Nat) : Nat := idx / g.pgLines

/-- The set of a given colour that can hold a line. -/
def l1Set (x : LineAddr) (colour : Nat) : Nat := colour * g.pgLines + x % g.pgLines

theorem l1Sets_pos : 0 < g.l1Sets := Nat.mul_pos g.colours_pos g.pgLines_pos

theorem l1Idx_lt (x : Nat) : g.l1Idx x < g.l1Sets := Nat.mod_lt _ g.l1Sets_pos

/-- The index keeps the address within the page. -/
theorem l1Idx_mod (x : Nat) : g.l1Idx x % g.pgLines = x % g.pgLines :=
  Nat.mod_mod_of_dvd x (Nat.dvd_mul_left g.pgLines g.colours)

@[simp] theorem l1Tag_l1Line (tag idx : Nat) : g.l1Tag (g.l1Line tag idx) = tag := by
  rw [l1Tag, l1Line, Nat.mul_comm, Nat.mul_add_div g.pgLines_pos,
    Nat.div_eq_of_lt (Nat.mod_lt _ g.pgLines_pos), Nat.add_zero]

theorem l1Tag_remap (tag x : Nat) : g.l1Tag (tag * g.pgLines + x % g.pgLines) = tag :=
  g.l1Tag_l1Line tag x

@[simp] theorem l1Line_mod (tag idx : Nat) :
    g.l1Line tag idx % g.pgLines = idx % g.pgLines := by
  rw [l1Line, Nat.mul_comm, Nat.mul_add_mod, Nat.mod_mod]

theorem l1Line_l1Tag {x : LineAddr} {idx : Nat} (h : idx % g.pgLines = x % g.pgLines) :
    g.l1Line (g.l1Tag x) idx = x := by
  rw [l1Line, l1Tag, h, Nat.div_add_mod']

/-- A set is the set of its own colour for every line it can hold. -/
theorem l1Set_colour {x : LineAddr} {idx : Nat} (h : idx % g.pgLines = x % g.pgLines) :
    g.l1Set x (g.colour idx) = idx := by
  rw [l1Set, colour, ← h, Nat.div_add_mod']

theorem colour_lt {idx : Nat} (h : idx < g.l1Sets) : g.colour idx < g.colours := by
  rw [colour, Nat.div_lt_iff_lt_mul g.pgLines_pos]
  exact h

theorem l1Set_lt {x : LineAddr} {c : Nat} (h : c < g.colours) : g.l1Set x c < g.l1Sets := by
  have hm : x % g.pgLines < g.pgLines := Nat.mod_lt _ g.pgLines_pos
  calc g.l1Set x c < c * g.pgLines + g.pgLines := Nat.add_lt_add_left hm _
    _ = (c + 1) * g.pgLines := (Nat.succ_mul c g.pgLines).symm
    _ ≤ g.l1Sets := Nat.mul_le_mul_right _ h

theorem colour_l1Set (x : LineAddr) (c : Nat) : g.colour (g.l1Set x c) = c := by
  rw [colour, l1Set, Nat.mul_comm, Nat.mul_add_div g.pgLines_pos,
    Nat.div_eq_of_lt (Nat.mod_lt _ g.pgLines_pos), Nat.add_zero]

@[simp] theorem l1Set_mod (x : LineAddr) (c : Nat) :
    g.l1Set x c % g.pgLines = x % g.pgLines := by
  rw [l1Set, Nat.mul_comm, Nat.mul_add_mod, Nat.mod_mod]

end Geometry

end R9999
