import R9999.L1d.Model

/-!
# The load datapaths of the L1D

`l1d.sv` answers a load on either of its two ports, each with a datapath of its own: the
word or doubleword of the line, byte-swapped, then sliced, extended and, for the unaligned
loads, joined to the register's old value.  Both are written out here as the source has
them.

`loaded` is the architectural result, one byte of the register at a time.  `rspData_byte`
shows that the slices produce it; the unaligned stores and loads then round-trip through a
memory of lines.
-/

namespace R9999

/-- `{n{b}}`. -/
def fill (n : Nat) (b : Bool) : BitVec n := if b then BitVec.allOnes n else 0

/-- The 32-bit bus word of four bytes. -/
def BusWord.bits32 (w : BusWord 4) : BitVec 32 := w 3 ++ w 2 ++ w 1 ++ w 0

/-- The 64-bit bus word of eight bytes. -/
def BusWord.bits64 (w : BusWord 8) : BitVec 64 :=
  w 7 ++ w 6 ++ w 5 ++ w 4 ++ w 3 ++ w 2 ++ w 1 ++ w 0

/-- `bswap16`. -/
def bswap16 (x : BitVec 16) : BitVec 16 := x.extractLsb' 0 8 ++ x.extractLsb' 8 8

/-- `sext16`: the sign of a halfword as it lies on the bus. -/
def sext16 (x : BitVec 16) : Bool := x.getLsbD 7

namespace CoreReq

variable (r : CoreReq)

/-- `t_rsp_data`: what port 1 answers a load with, from the line `t_data`. -/
def rspData (line : Line) : BitVec 64 :=
  let w := (selectCl 4 line (r.off.val / 4)).bits32
  let s := (bswap (selectCl 4 line (r.off.val / 4))).bits32
  let d := (bswap (selectCl 8 line (r.off.val / 8))).bits64
  match r.op with
  | .lb =>
      match r.off.val % 4 with
      | 0 => fill 56 (w.getLsbD 7) ++ w.extractLsb' 0 8
      | 1 => fill 56 (w.getLsbD 15) ++ w.extractLsb' 8 8
      | 2 => fill 56 (w.getLsbD 23) ++ w.extractLsb' 16 8
      | _ => fill 56 (w.getLsbD 31) ++ w.extractLsb' 24 8
  | .lbu =>
      match r.off.val % 4 with
      | 0 => fill 56 false ++ w.extractLsb' 0 8
      | 1 => fill 56 false ++ w.extractLsb' 8 8
      | 2 => fill 56 false ++ w.extractLsb' 16 8
      | _ => fill 56 false ++ w.extractLsb' 24 8
  | .lh =>
      match r.off.val / 2 % 2 with
      | 0 => fill 48 (sext16 (w.extractLsb' 0 16)) ++ bswap16 (w.extractLsb' 0 16)
      | _ => fill 48 (sext16 (w.extractLsb' 16 16)) ++ bswap16 (w.extractLsb' 16 16)
  | .lhu =>
      fill 48 false ++
        bswap16 (if r.off.val / 2 % 2 = 1 then w.extractLsb' 16 16 else w.extractLsb' 0 16)
  | .lw => fill 32 (s.getLsbD 31) ++ s
  | .lwu => fill 32 false ++ s
  | .ll => fill 32 (s.getLsbD 31) ++ s
  | .lld => d
  | .ld => d
  | .lwr =>
      match r.off.val % 4 with
      | 0 => fill 32 (r.data.getLsbD 31) ++ (r.data.extractLsb' 8 24 ++ s.extractLsb' 24 8)
      | 1 => fill 32 (r.data.getLsbD 31) ++ (r.data.extractLsb' 16 16 ++ s.extractLsb' 16 16)
      | 2 => fill 32 (r.data.getLsbD 31) ++ (r.data.extractLsb' 24 8 ++ s.extractLsb' 8 24)
      | _ => fill 32 (s.getLsbD 31) ++ s
  | .lwl =>
      match r.off.val % 4 with
      | 0 => fill 32 (s.getLsbD 31) ++ s
      | 1 => fill 32 (s.getLsbD 23) ++ (s.extractLsb' 0 24 ++ r.data.extractLsb' 0 8)
      | 2 => fill 32 (s.getLsbD 15) ++ (s.extractLsb' 0 16 ++ r.data.extractLsb' 0 16)
      | _ => fill 32 (s.getLsbD 7) ++ (s.extractLsb' 0 8 ++ r.data.extractLsb' 0 24)
  | .ldl =>
      match r.off.val % 8 with
      | 0 => d
      | 1 => d.extractLsb' 0 56 ++ r.data.extractLsb' 0 8
      | 2 => d.extractLsb' 0 48 ++ r.data.extractLsb' 0 16
      | 3 => d.extractLsb' 0 40 ++ r.data.extractLsb' 0 24
      | 4 => d.extractLsb' 0 32 ++ r.data.extractLsb' 0 32
      | 5 => d.extractLsb' 0 24 ++ r.data.extractLsb' 0 40
      | 6 => d.extractLsb' 0 16 ++ r.data.extractLsb' 0 48
      | _ => d.extractLsb' 0 8 ++ r.data.extractLsb' 0 56
  | .ldr =>
      match r.off.val % 8 with
      | 0 => r.data.extractLsb' 8 56 ++ d.extractLsb' 56 8
      | 1 => r.data.extractLsb' 16 48 ++ d.extractLsb' 48 16
      | 2 => r.data.extractLsb' 24 40 ++ d.extractLsb' 40 24
      | 3 => r.data.extractLsb' 32 32 ++ d.extractLsb' 32 32
      | 4 => r.data.extractLsb' 40 24 ++ d.extractLsb' 24 40
      | 5 => r.data.extractLsb' 48 16 ++ d.extractLsb' 16 48
      | 6 => r.data.extractLsb' 56 8 ++ d.extractLsb' 8 56
      | _ => d
  | _ => 0

/-- `t_rsp_data2`: what port 2 answers a load with, from the line `t_data2`. -/
def rspData2 (line : Line) : BitVec 64 :=
  let w := (selectCl 4 line (r.off.val / 4)).bits32
  let s := (bswap (selectCl 4 line (r.off.val / 4))).bits32
  let d := (bswap (selectCl 8 line (r.off.val / 8))).bits64
  match r.op with
  | .lb =>
      match r.off.val % 4 with
      | 0 => fill 56 (w.getLsbD 7) ++ w.extractLsb' 0 8
      | 1 => fill 56 (w.getLsbD 15) ++ w.extractLsb' 8 8
      | 2 => fill 56 (w.getLsbD 23) ++ w.extractLsb' 16 8
      | _ => fill 56 (w.getLsbD 31) ++ w.extractLsb' 24 8
  | .lbu =>
      match r.off.val % 4 with
      | 0 => fill 56 false ++ w.extractLsb' 0 8
      | 1 => fill 56 false ++ w.extractLsb' 8 8
      | 2 => fill 56 false ++ w.extractLsb' 16 8
      | _ => fill 56 false ++ w.extractLsb' 24 8
  | .lh =>
      match r.off.val / 2 % 2 with
      | 0 => fill 48 (sext16 (w.extractLsb' 0 16)) ++ bswap16 (w.extractLsb' 0 16)
      | _ => fill 48 (sext16 (w.extractLsb' 16 16)) ++ bswap16 (w.extractLsb' 16 16)
  | .lhu =>
      fill 48 false ++
        bswap16 (if r.off.val / 2 % 2 = 1 then w.extractLsb' 16 16 else w.extractLsb' 0 16)
  | .lw => fill 32 (s.getLsbD 31) ++ s
  | .lwu => fill 32 false ++ s
  | .ll => fill 32 (s.getLsbD 31) ++ s
  | .lld => d
  | .ld => d
  | .lwr =>
      match r.off.val % 4 with
      | 0 => fill 32 (r.data.getLsbD 31) ++ (r.data.extractLsb' 8 24 ++ s.extractLsb' 24 8)
      | 1 => fill 32 (r.data.getLsbD 31) ++ (r.data.extractLsb' 16 16 ++ s.extractLsb' 16 16)
      | 2 => fill 32 (r.data.getLsbD 31) ++ (r.data.extractLsb' 24 8 ++ s.extractLsb' 8 24)
      | _ => fill 32 (s.getLsbD 31) ++ s
  | .lwl =>
      match r.off.val % 4 with
      | 0 => fill 32 (s.getLsbD 31) ++ s
      | 1 => fill 32 (s.getLsbD 23) ++ (s.extractLsb' 0 24 ++ r.data.extractLsb' 0 8)
      | 2 => fill 32 (s.getLsbD 15) ++ (s.extractLsb' 0 16 ++ r.data.extractLsb' 0 16)
      | _ => fill 32 (s.getLsbD 7) ++ (s.extractLsb' 0 8 ++ r.data.extractLsb' 0 24)
  | .ldl =>
      match r.off.val % 8 with
      | 0 => d
      | 1 => d.extractLsb' 0 56 ++ r.data.extractLsb' 0 8
      | 2 => d.extractLsb' 0 48 ++ r.data.extractLsb' 0 16
      | 3 => d.extractLsb' 0 40 ++ r.data.extractLsb' 0 24
      | 4 => d.extractLsb' 0 32 ++ r.data.extractLsb' 0 32
      | 5 => d.extractLsb' 0 24 ++ r.data.extractLsb' 0 40
      | 6 => d.extractLsb' 0 16 ++ r.data.extractLsb' 0 48
      | _ => d.extractLsb' 0 8 ++ r.data.extractLsb' 0 56
  | .ldr =>
      match r.off.val % 8 with
      | 0 => r.data.extractLsb' 8 56 ++ d.extractLsb' 56 8
      | 1 => r.data.extractLsb' 16 48 ++ d.extractLsb' 48 16
      | 2 => r.data.extractLsb' 24 40 ++ d.extractLsb' 40 24
      | 3 => r.data.extractLsb' 32 32 ++ d.extractLsb' 32 32
      | 4 => r.data.extractLsb' 40 24 ++ d.extractLsb' 24 40
      | 5 => r.data.extractLsb' 48 16 ++ d.extractLsb' 16 48
      | 6 => r.data.extractLsb' 56 8 ++ d.extractLsb' 8 56
      | _ => d
  | _ => 0

/-! ## What a load reads -/

/-- The ops a load pass answers with data. -/
def loadOp : MemOp → Bool
  | .lb | .lbu | .lh | .lhu | .lw | .lwu | .ll | .lld | .ld | .lwr | .lwl | .ldl | .ldr => true
  | _ => false

/-- Natural alignment of the loads that need it. -/
def LoadAligned : Prop :=
  match r.op with
  | .lh | .lhu => r.off.val % 2 = 0
  | .lw | .lwu | .ll => r.off.val % 4 = 0
  | .ld | .lld => r.off.val % 8 = 0
  | _ => True

theorem loadAligned_iff :
    ((r.op = .lh ∨ r.op = .lhu → r.off.val % 2 = 0) ∧
      (r.op = .lw ∨ r.op = .lwu ∨ r.op = .ll → r.off.val % 4 = 0) ∧
        (r.op = .ld ∨ r.op = .lld → r.off.val % 8 = 0)) ↔ r.LoadAligned := by
  unfold LoadAligned
  cases r.op <;> simp

instance : Decidable r.LoadAligned := decidable_of_iff _ r.loadAligned_iff

/-- Extend `n` bytes to a register, least significant byte first. -/
def extended (signed : Bool) (n : Nat) (f : Nat → BitVec 8) (k : Nat) : BitVec 8 :=
  if k < n then f k else fill 8 (signed && (f (n - 1)).msb)

/-- Byte `k` of the big-endian value of `n` bytes, the most significant at `a`. -/
def bigEndian (m : Nat → BitVec 8) (n a : Nat) (k : Nat) : BitVec 8 := m (a + (n - 1) - k)

/-- Byte `k` of the register after a load at address `a` of the byte memory `m`; `old` is the
register before. -/
def loaded (op : MemOp) (m : Nat → BitVec 8) (a : Nat) (old : BitVec 64) : Nat → BitVec 8 :=
  match op with
  | .lb => extended true 1 (bigEndian m 1 a)
  | .lbu => extended false 1 (bigEndian m 1 a)
  | .lh => extended true 2 (bigEndian m 2 a)
  | .lhu => extended false 2 (bigEndian m 2 a)
  | .lw | .ll => extended true 4 (bigEndian m 4 a)
  | .lwu => extended false 4 (bigEndian m 4 a)
  | .ld | .lld => bigEndian m 8 a
  | .lwl => extended true 4 fun k => if a % 4 ≤ k then bigEndian m 4 a k else regByte old k
  | .lwr => extended true 4 fun k => if k ≤ a % 4 then m (a - k) else regByte old k
  | .ldl => fun k => if a % 8 ≤ k then bigEndian m 8 a k else regByte old k
  | .ldr => fun k => if k ≤ a % 8 then m (a - k) else regByte old k
  | _ => fun _ => 0

end CoreReq

/-! ## Bytes of a bus word -/

section Bytes

variable {m a b n lo k : Nat}

/-- Byte `k` of a bus. -/
def byteOf (x : BitVec m) (k : Nat) : BitVec 8 := x.extractLsb' (8 * k) 8

/-- The byte of a line at an address. -/
def Line.byte (line : Line) (x : Nat) : BitVec 8 := line (Fin.ofNat 16 x)

theorem byteOf_append (x : BitVec a) (y : BitVec b) (hb : 8 ∣ b) :
    byteOf (x ++ y) k = if k < b / 8 then byteOf y k else byteOf x (k - b / 8) := by
  ext i hi
  by_cases h : k < b / 8
  · simp only [byteOf, BitVec.getElem_extractLsb', BitVec.getLsbD_append, if_pos h]
    rw [if_pos (by omega)]
  · simp only [byteOf, BitVec.getElem_extractLsb', BitVec.getLsbD_append, if_neg h]
    rw [if_neg (by omega)]
    congr 1
    omega

theorem byteOf_extractLsb' (x : BitVec m) (h : k < n / 8) (hl : 8 ∣ lo) :
    byteOf (x.extractLsb' lo n) k = byteOf x (k + lo / 8) := by
  ext i hi
  simp only [byteOf, BitVec.getElem_extractLsb', BitVec.getLsbD_extractLsb']
  rw [decide_eq_true (by omega), Bool.true_and]
  congr 1
  omega

theorem byteOf_fill (s : Bool) (h : k < n / 8) : byteOf (fill n s) k = fill 8 s := by
  ext i hi
  cases s
  · simp [byteOf, fill]
  · simp only [byteOf, fill, if_true, BitVec.getElem_extractLsb', BitVec.getLsbD_allOnes,
      BitVec.getElem_allOnes]
    exact decide_eq_true (by omega)

theorem getElem_fill (s : Bool) {i : Nat} (h : i < n) : (fill n s)[i] = s := by
  cases s <;> simp [fill]

/-- The sign of a byte of a bus. -/
theorem getLsbD_msb (x : BitVec m) {i : Nat} (hi : i % 8 = 7) :
    x.getLsbD i = (byteOf x (i / 8)).msb := by
  rw [BitVec.msb_eq_getLsbD_last, byteOf, BitVec.getLsbD_extractLsb', decide_eq_true (by decide),
    Bool.true_and]
  congr 1
  omega

/-- Registers are equal when their bytes are. -/
theorem eq_of_regByte {x y : BitVec 64} (h : ∀ k < 8, regByte x k = regByte y k) : x = y := by
  refine BitVec.eq_of_getLsbD_eq fun i hi => ?_
  have hb := congrArg (fun z => z.getLsbD (i % 8)) (h (i / 8) (by omega))
  simp only [regByte, BitVec.getLsbD_extractLsb', Nat.mod_lt i (by decide : 0 < 8), decide_true,
    Bool.true_and, Nat.div_add_mod] at hb
  exact hb

theorem byteOf_zero (x : BitVec 8) : byteOf x 0 = x := by
  simp [byteOf]

theorem byteOf_bits32 (w : BusWord 4) (h : k < 4) : byteOf w.bits32 k = w (Fin.ofNat 4 k) := by
  match k, h with
  | 0, _ | 1, _ | 2, _ | 3, _ =>
    simp (disch := decide) only [BusWord.bits32, byteOf_append, if_pos, if_neg]
    exact byteOf_zero _

theorem byteOf_bits64 (w : BusWord 8) (h : k < 8) : byteOf w.bits64 k = w (Fin.ofNat 8 k) := by
  match k, h with
  | 0, _ | 1, _ | 2, _ | 3, _ | 4, _ | 5, _ | 6, _ | 7, _ =>
    simp (disch := decide) only [BusWord.bits64, byteOf_append, if_pos, if_neg]
    exact byteOf_zero _

/-- A byte of `t_w32`. -/
theorem byteOf_select32 (line : Line) (pos : Nat) (h : k < 4) :
    byteOf (selectCl 4 line pos).bits32 k = line.byte (4 * pos + k) := by
  rw [byteOf_bits32 _ h, selectCl, Line.byte, Fin.val_ofNat, Nat.mod_eq_of_lt h]

/-- A byte of `t_bswap_w32`. -/
theorem byteOf_bswap32 (line : Line) (pos : Nat) (h : k < 4) :
    byteOf (bswap (selectCl 4 line pos)).bits32 k = line.byte (4 * pos + (3 - k)) := by
  rw [byteOf_bits32 _ h, bswap_ofNat, selectCl, Line.byte, Fin.val_ofNat, Nat.mod_eq_of_lt h,
    Nat.mod_eq_of_lt (by omega)]

/-- A byte of `t_dword`. -/
theorem byteOf_bswap64 (line : Line) (pos : Nat) (h : k < 8) :
    byteOf (bswap (selectCl 8 line pos)).bits64 k = line.byte (8 * pos + (7 - k)) := by
  rw [byteOf_bits64 _ h, bswap_ofNat, selectCl, Line.byte, Fin.val_ofNat, Nat.mod_eq_of_lt h,
    Nat.mod_eq_of_lt (by omega)]

end Bytes

namespace CoreReq

variable (r : CoreReq) (line : Line) {k : Nat}

/-- An extension, by the bytes it extends and the sign it repeats. -/
theorem byteOf_extended {a b n : Nat} {signed s : Bool} {x : BitVec b} {f : Nat → BitVec 8}
    (hb : b = 8 * n) (hk : 8 * k + 8 ≤ a + b) (hx : ∀ j < n, byteOf x j = f j)
    (hs : s = (signed && (f (n - 1)).msb)) :
    byteOf (fill a s ++ x) k = extended signed n f k := by
  have hn : b / 8 = n := by omega
  rw [byteOf_append _ _ (hb ▸ Nat.dvd_mul_right 8 n), extended, hn, ← hs]
  by_cases h : k < n
  · rw [if_pos h, if_pos h, hx k h]
  · rw [if_neg h, if_neg h, byteOf_fill _ (by omega)]

/-- The byte loads. -/
theorem rspData_byte_load (hk : k < 8) (ho : r.op = .lb ∨ r.op = .lbu) :
    byteOf (r.rspData line) k = loaded r.op line.byte r.off.val r.data k := by
  have hm : r.off.val % 4 = 0 ∨ r.off.val % 4 = 1 ∨ r.off.val % 4 = 2 ∨ r.off.val % 4 = 3 := by
    omega
  rcases ho with ho | ho <;> simp only [rspData, loaded, ho] <;>
    rcases hm with hm | hm | hm | hm <;> simp only [hm]
  all_goals
    refine byteOf_extended rfl (by omega) (fun j hj => ?_) ?_
    · simp (disch := omega) only [byteOf_extractLsb', byteOf_select32, bigEndian]
      congr 1
      omega
    · simp (disch := omega) only [getLsbD_msb, byteOf_select32, bigEndian, Bool.true_and,
        Bool.false_and]
      try
        congr 2
        omega

theorem byteOf_bswap16 (x : BitVec 16) (hk : k < 2) :
    byteOf (bswap16 x) k = byteOf x (1 - k) := by
  rw [bswap16, byteOf_append _ _ (by decide)]
  by_cases h : k < 1
  · simp (disch := omega) only [byteOf_extractLsb', if_pos]
    congr 1
    omega
  · simp (disch := omega) only [byteOf_extractLsb', if_neg]
    congr 1
    omega

/-- The halfword loads. -/
theorem rspData_half_load (hk : k < 8) (ho : r.op = .lh ∨ r.op = .lhu) (ha : r.LoadAligned) :
    byteOf (r.rspData line) k = loaded r.op line.byte r.off.val r.data k := by
  have hm : r.off.val / 2 % 2 = 0 ∨ r.off.val / 2 % 2 = 1 := by omega
  rcases ho with ho | ho <;> simp only [LoadAligned, ho] at ha <;>
    simp only [rspData, loaded, ho] <;> rcases hm with hm | hm <;>
      simp only [hm, reduceIte, Nat.zero_ne_one]
  all_goals
    refine byteOf_extended rfl (by omega) (fun j hj => ?_) ?_
    · simp (disch := omega) only [byteOf_bswap16, byteOf_extractLsb', byteOf_select32, bigEndian]
      congr 1
      omega
    · simp (disch := omega) only [sext16, getLsbD_msb, byteOf_extractLsb', byteOf_select32,
        bigEndian, Bool.true_and, Bool.false_and]
      try
        congr 2
        omega

/-- The word loads. -/
theorem rspData_word_load (hk : k < 8) (ho : r.op = .lw ∨ r.op = .lwu ∨ r.op = .ll)
    (ha : r.LoadAligned) :
    byteOf (r.rspData line) k = loaded r.op line.byte r.off.val r.data k := by
  rcases ho with ho | ho | ho <;> simp only [LoadAligned, ho] at ha <;>
    simp only [rspData, loaded, ho]
  all_goals
    refine byteOf_extended rfl (by omega) (fun j hj => ?_) ?_
    · simp (disch := omega) only [byteOf_bswap32, bigEndian]
      congr 1
      omega
    · simp (disch := omega) only [getLsbD_msb, byteOf_bswap32, bigEndian, Bool.true_and,
        Bool.false_and]
      try
        congr 2
        omega

/-- The doubleword loads. -/
theorem rspData_dword_load (hk : k < 8) (ho : r.op = .ld ∨ r.op = .lld) (ha : r.LoadAligned) :
    byteOf (r.rspData line) k = loaded r.op line.byte r.off.val r.data k := by
  rcases ho with ho | ho <;> simp only [LoadAligned, ho] at ha <;>
    simp only [rspData, loaded, ho, byteOf_bswap64 line _ hk, bigEndian]
  all_goals
    congr 1
    omega

/-- A left-hand load: the low bytes are the register's. -/
theorem byteOf_left {m p q : Nat} (t : BitVec m) (old : BitVec 64) (hq : 8 ∣ q)
    (hk : 8 * k + 8 ≤ p + q) :
    byteOf (t.extractLsb' 0 p ++ old.extractLsb' 0 q) k =
      if q / 8 ≤ k then byteOf t (k - q / 8) else regByte old k := by
  rw [byteOf_append _ _ hq]
  by_cases h : k < q / 8
  · rw [if_pos h, if_neg (by omega), byteOf_extractLsb' _ h (by decide)]
    rfl
  · rw [if_neg h, if_pos (by omega), byteOf_extractLsb' _ (by omega) (by decide)]
    rfl

/-- A right-hand load: the high bytes are the register's. -/
theorem byteOf_right {m p q u : Nat} (t : BitVec m) (old : BitVec 64) (hq : 8 ∣ q) (hu : 8 ∣ u)
    (hk : 8 * k + 8 ≤ p + q) :
    byteOf (old.extractLsb' q p ++ t.extractLsb' u q) k =
      if k < q / 8 then byteOf t (k + u / 8) else regByte old k := by
  rw [byteOf_append _ _ hq]
  by_cases h : k < q / 8
  · rw [if_pos h, if_pos h, byteOf_extractLsb' _ h hu]
  · rw [if_neg h, if_neg h, byteOf_extractLsb' _ (by omega) hq, Nat.sub_add_cancel (by omega)]
    rfl

/-- `LWL`. -/
theorem rspData_lwl (hk : k < 8) (ho : r.op = .lwl) :
    byteOf (r.rspData line) k = loaded r.op line.byte r.off.val r.data k := by
  have hm : r.off.val % 4 = 0 ∨ r.off.val % 4 = 1 ∨ r.off.val % 4 = 2 ∨ r.off.val % 4 = 3 := by
    omega
  simp only [rspData, loaded, ho]
  rcases hm with hm | hm | hm | hm <;> simp only [hm]
  all_goals
    refine byteOf_extended rfl (by omega) (fun j hj => ?_) ?_
  case inl.refine_1 =>
    rw [byteOf_bswap32 _ _ hj, if_pos (Nat.zero_le j), bigEndian]
    congr 1
    omega
  case inr.inl.refine_1 | inr.inr.inl.refine_1 | inr.inr.inr.refine_1 =>
    rw [byteOf_left _ _ (by decide) (by omega)]
    split
    · rw [byteOf_bswap32 _ _ (by omega), bigEndian]
      congr 1
      omega
    · rfl
  all_goals
    rw [getLsbD_msb _ (by decide), byteOf_bswap32 _ _ (by decide), if_pos (by decide),
      Bool.true_and, bigEndian]
    congr 2
    omega

/-- `LWR`: the sign is the loaded word's where it reaches the top byte, and the register's
otherwise. -/
theorem rspData_lwr (hk : k < 8) (ho : r.op = .lwr) :
    byteOf (r.rspData line) k = loaded r.op line.byte r.off.val r.data k := by
  have hm : r.off.val % 4 = 0 ∨ r.off.val % 4 = 1 ∨ r.off.val % 4 = 2 ∨ r.off.val % 4 = 3 := by
    omega
  simp only [rspData, loaded, ho]
  rcases hm with hm | hm | hm | hm <;> simp only [hm]
  all_goals
    refine byteOf_extended rfl (by omega) (fun j hj => ?_) ?_
  case inl.refine_1 | inr.inl.refine_1 | inr.inr.inl.refine_1 =>
    rw [byteOf_right _ _ (by decide) (by decide) (by omega)]
    split
    · rw [if_pos (by omega), byteOf_bswap32 _ _ (by omega)]
      congr 1
      omega
    · rw [if_neg (by omega)]
  case inr.inr.inr.refine_1 =>
    rw [byteOf_bswap32 _ _ hj, if_pos (by omega)]
    congr 1
    omega
  case inr.inr.inr.refine_2 =>
    rw [getLsbD_msb _ (by decide), byteOf_bswap32 _ _ (by decide), if_pos (by decide),
      Bool.true_and]
    congr 2
    omega
  all_goals
    rw [getLsbD_msb _ (by decide), if_neg (by decide), Bool.true_and]
    rfl

/-- `LDL`. -/
theorem rspData_ldl (hk : k < 8) (ho : r.op = .ldl) :
    byteOf (r.rspData line) k = loaded r.op line.byte r.off.val r.data k := by
  have hm : r.off.val % 8 = 0 ∨ r.off.val % 8 = 1 ∨ r.off.val % 8 = 2 ∨ r.off.val % 8 = 3 ∨
      r.off.val % 8 = 4 ∨ r.off.val % 8 = 5 ∨ r.off.val % 8 = 6 ∨ r.off.val % 8 = 7 := by omega
  simp only [rspData, loaded, ho]
  rcases hm with hm | hm | hm | hm | hm | hm | hm | hm <;> simp only [hm]
  case inl =>
    rw [byteOf_bswap64 _ _ hk, if_pos (Nat.zero_le k), bigEndian]
    congr 1
    omega
  all_goals
    rw [byteOf_left _ _ (by decide) (by omega)]
    split
    · rw [byteOf_bswap64 _ _ (by omega), bigEndian]
      congr 1
      omega
    · rfl

/-- `LDR`. -/
theorem rspData_ldr (hk : k < 8) (ho : r.op = .ldr) :
    byteOf (r.rspData line) k = loaded r.op line.byte r.off.val r.data k := by
  have hm : r.off.val % 8 = 7 ∨ r.off.val % 8 = 0 ∨ r.off.val % 8 = 1 ∨ r.off.val % 8 = 2 ∨
      r.off.val % 8 = 3 ∨ r.off.val % 8 = 4 ∨ r.off.val % 8 = 5 ∨ r.off.val % 8 = 6 := by omega
  simp only [rspData, loaded, ho]
  rcases hm with hm | hm | hm | hm | hm | hm | hm | hm <;> simp only [hm]
  case inl =>
    rw [byteOf_bswap64 _ _ hk, if_pos (by omega)]
    congr 1
    omega
  all_goals
    rw [byteOf_right _ _ (by decide) (by decide) (by omega)]
    split
    · rw [if_pos (by omega), byteOf_bswap64 _ _ (by omega)]
      congr 1
      omega
    · rw [if_neg (by omega)]

/-- **The load datapath.**  Every byte of the register after an aligned load. -/
theorem rspData_byte (hl : loadOp r.op = true) (ha : r.LoadAligned) (hk : k < 8) :
    regByte (r.rspData line) k = loaded r.op line.byte r.off.val r.data k := by
  cases ho : r.op <;> rw [ho] at hl <;> first | exact absurd hl (by decide) | rw [← ho]
  case lb => exact r.rspData_byte_load line hk (.inl ho)
  case lbu => exact r.rspData_byte_load line hk (.inr ho)
  case lh => exact r.rspData_half_load line hk (.inl ho) ha
  case lhu => exact r.rspData_half_load line hk (.inr ho) ha
  case lw => exact r.rspData_word_load line hk (.inl ho) ha
  case lwu => exact r.rspData_word_load line hk (.inr (.inl ho)) ha
  case ll => exact r.rspData_word_load line hk (.inr (.inr ho)) ha
  case ld => exact r.rspData_dword_load line hk (.inl ho) ha
  case lld => exact r.rspData_dword_load line hk (.inr ho) ha
  case lwl => exact r.rspData_lwl line hk ho
  case lwr => exact r.rspData_lwr line hk ho
  case ldl => exact r.rspData_ldl line hk ho
  case ldr => exact r.rspData_ldr line hk ho

/-- The two ports compute the same function. -/
theorem rspData2_eq : r.rspData2 line = r.rspData line := rfl

end CoreReq

namespace CoreReq

variable (r : CoreReq) {k : Nat}

/-- The addresses of the naturally aligned access of a load at `a`. -/
def InAccess (op : MemOp) (a x : Nat) : Prop :=
  match op with
  | .lb | .lbu => x = a
  | .lh | .lhu => x / 2 = a / 2
  | .lw | .lwu | .ll | .lwl | .lwr => x / 4 = a / 4
  | .ld | .lld | .ldl | .ldr => x / 8 = a / 8
  | _ => False

instance (op : MemOp) (a x : Nat) : Decidable (InAccess op a x) := by
  unfold InAccess
  split <;> infer_instance

/-- The bytes of the line in the access of a load. -/
def reads : Mask := fun b => decide (InAccess r.op r.off.val b.val)

theorem extended_congr {signed : Bool} {n : Nat} {f g : Nat → BitVec 8} (hn : 0 < n)
    (h : ∀ j < n, f j = g j) : extended signed n f = extended signed n g := by
  funext j
  rw [extended, extended, h (n - 1) (by omega)]
  by_cases hj : j < n
  · rw [if_pos hj, if_pos hj, h j hj]
  · rw [if_neg hj, if_neg hj]

/-- A big-endian value in two memories that agree on it. -/
theorem bigEndian_congr {m m' : Nat → BitVec 8} {n a d : Nat} (hk : k < n)
    (h : m (a + (n - 1) - k) = m' (a + (n - 1) - k + d)) :
    bigEndian m n a k = bigEndian m' n (a + d) k := by
  rw [bigEndian, bigEndian, h]
  congr 1
  omega

/-- A load takes its value from the bytes of its access, wherever they lie. -/
theorem loaded_congr {m m' : Nat → BitVec 8} {d : Nat} (ha : r.LoadAligned) (hk : k < 8)
    (hd : d % 8 = 0) (h : ∀ x, InAccess r.op r.off.val x → m x = m' (x + d)) :
    loaded r.op m r.off.val r.data k = loaded r.op m' (r.off.val + d) r.data k := by
  have h4 : (r.off.val + d) % 4 = r.off.val % 4 := by omega
  have h8 : (r.off.val + d) % 8 = r.off.val % 8 := by omega
  have hr : ∀ j ≤ r.off.val, r.off.val + d - j = r.off.val - j + d := by
    intro j hj
    omega
  simp only [loaded, h4, h8]
  cases ho : r.op <;> simp only [LoadAligned, ho] at ha <;> simp only [InAccess, ho] at h <;>
    simp only
  case ld | lld => exact bigEndian_congr hk (h _ (by omega))
  case ldl =>
    by_cases hj : r.off.val % 8 ≤ k
    · rw [if_pos hj, if_pos hj]
      exact bigEndian_congr hk (h _ (by omega))
    · rw [if_neg hj, if_neg hj]
  case ldr =>
    by_cases hj : k ≤ r.off.val % 8
    · rw [if_pos hj, if_pos hj, hr k (by omega)]
      exact h _ (by omega)
    · rw [if_neg hj, if_neg hj]
  all_goals
    refine congrFun (extended_congr (by decide) fun j hj => ?_) k
  case lwl =>
    by_cases hm : r.off.val % 4 ≤ j
    · rw [if_pos hm, if_pos hm]
      exact bigEndian_congr hj (h _ (by omega))
    · rw [if_neg hm, if_neg hm]
  case lwr =>
    by_cases hm : j ≤ r.off.val % 4
    · rw [if_pos hm, if_pos hm, hr j (by omega)]
      exact h _ (by omega)
    · rw [if_neg hm, if_neg hm]
  all_goals exact bigEndian_congr hj (h _ (by omega))

/-- An access stays in its line. -/
theorem InAccess.lt {op : MemOp} {a x : Nat} (h : InAccess op a x) (ha : a < 16) : x < 16 := by
  cases op <;> simp only [InAccess] at h <;> omega

/-- A load depends on the line only where it reads. -/
theorem rspData_congr {line line' : Line} (hl : loadOp r.op = true) (ha : r.LoadAligned)
    (h : ∀ b, r.reads b = true → line b = line' b) : r.rspData line = r.rspData line' := by
  refine eq_of_regByte fun k hk => ?_
  rw [r.rspData_byte line hl ha hk, r.rspData_byte line' hl ha hk]
  refine r.loaded_congr ha hk (d := 0) rfl fun x hx => ?_
  refine h _ (decide_eq_true ?_)
  rwa [Fin.val_ofNat, Nat.mod_eq_of_lt (hx.lt r.off.isLt)]

end CoreReq

/-! ## Unaligned accesses to memory -/

/-- The byte of a memory of lines at an address. -/
def memByte (mem : Nat → Line) (x : Nat) : BitVec 8 := (mem (x / 16)).byte x

/-- An address in a line, and the byte of the line. -/
theorem memByte_line (mem : Nat → Line) (l : Nat) {x : Nat} (h : x < 16) :
    memByte mem (16 * l + x) = (mem l).byte x := by
  have hd : (16 * l + x) / 16 = l := by omega
  rw [memByte, hd]
  exact congrArg (mem l) (Fin.ext (by simp only [Fin.val_ofNat]; omega))

namespace CoreReq

variable (r s t u : CoreReq) (mem : Nat → Line) {k : Nat}

/-- The byte address of a request. -/
def addr : Nat := 16 * r.line + r.off.val

/-- The request with another operation, address and datum. -/
def access (op : MemOp) (a : Nat) (data : BitVec 64) : CoreReq :=
  { r with op := op, line := a / 16, off := Fin.ofNat 16 a, data := data }

/-- Port 1 stores into the line of the request. -/
def store : Nat → Line := Function.update mem r.line (r.storeLine (mem r.line))

/-- Port 1 loads from the line of the request. -/
def load : BitVec 64 := r.rspData (mem r.line)

theorem access_addr (op : MemOp) (a : Nat) (data : BitVec 64) :
    (r.access op a data).addr = a :=
  Nat.div_add_mod a 16

/-- A store changes the bytes it writes and no others. -/
theorem memByte_store (hs : storeOp r.op = true) (b : Nat) {w : Prop} [Decidable w]
    (hw : b / 16 = r.line ∧ r.writes (Fin.ofNat 16 b) = true ↔ w) :
    memByte (r.store mem) b = if w then r.bytes (Fin.ofNat 16 b) else memByte mem b := by
  simp only [memByte, store, Line.byte]
  by_cases hb : b / 16 = r.line
  · rw [hb, Function.update_self, r.storeLine_eq_merge _ hs, Line.merge]
    simp only [← hw, hb, true_and]
  · rw [Function.update_of_ne hb, if_neg (fun h => hb (hw.2 h).1)]

/-- What a load reads from its line is what it reads from memory. -/
theorem loaded_line (ha : r.LoadAligned) (hk : k < 8) :
    loaded r.op (mem r.line).byte r.off.val r.data k =
      loaded r.op (memByte mem) r.addr r.data k := by
  rw [addr, Nat.add_comm]
  refine r.loaded_congr ha hk (by omega) fun x hx => ?_
  rw [Nat.add_comm]
  exact (memByte_line mem r.line (hx.lt r.off.isLt)).symm

/-- **A load from memory.** -/
theorem load_byte (hl : loadOp r.op = true) (ha : r.LoadAligned) (hk : k < 8) :
    regByte (r.load mem) k = loaded r.op (memByte mem) r.addr r.data k := by
  rw [load, r.rspData_byte _ hl ha hk, r.loaded_line mem ha hk]

/-- A load at a byte address. -/
theorem load_access {op : MemOp} {a : Nat} {old : BitVec 64} (hl : loadOp op = true)
    (ha : (r.access op a old).LoadAligned) (hk : k < 8) :
    regByte ((r.access op a old).load mem) k = loaded op (memByte mem) a old k := by
  rw [(r.access op a old).load_byte mem hl ha hk, access_addr]
  rfl

/-- `SWL` and `SWR` of the word at `a` write its four bytes and no others. -/
theorem swl_swr (a b : Nat) (d : BitVec 64) :
    memByte ((s.access .swr (a + 3) d).store ((r.access .swl a d).store mem)) b =
      if a ≤ b ∧ b < a + 4 then regByte d (a + 3 - b) else memByte mem b := by
  let right : Prop := b / 16 = (a + 3) / 16 ∧ b % 16 / 4 = (a + 3) % 16 / 4 ∧
    b % 16 % 4 ≤ (a + 3) % 16 % 4
  let left : Prop := b / 16 = a / 16 ∧ b % 16 / 4 = a % 16 / 4 ∧ a % 16 % 4 ≤ b % 16 % 4
  rw [memByte_store (s.access .swr (a + 3) d) (w := right) _ rfl b
      (and_congr Iff.rfl decide_eq_true_iff),
    memByte_store (r.access .swl a d) (w := left) _ rfl b (and_congr Iff.rfl decide_eq_true_iff)]
  simp only [access, bytes, Fin.val_ofNat]
  by_cases hr : right
  · rw [if_pos hr, if_pos (by omega)]
    congr 1
    omega
  by_cases hl : left
  · rw [if_neg hr, if_pos hl, if_pos (by omega)]
    congr 1
    omega
  · rw [if_neg hr, if_neg hl, if_neg (by omega)]

/-- `SDL` and `SDR` of the doubleword at `a` write its eight bytes and no others. -/
theorem sdl_sdr (a b : Nat) (d : BitVec 64) :
    memByte ((s.access .sdr (a + 7) d).store ((r.access .sdl a d).store mem)) b =
      if a ≤ b ∧ b < a + 8 then regByte d (a + 7 - b) else memByte mem b := by
  let right : Prop := b / 16 = (a + 7) / 16 ∧ b % 16 / 8 = (a + 7) % 16 / 8 ∧
    b % 16 % 8 ≤ (a + 7) % 16 % 8
  let left : Prop := b / 16 = a / 16 ∧ b % 16 / 8 = a % 16 / 8 ∧ a % 16 % 8 ≤ b % 16 % 8
  rw [memByte_store (s.access .sdr (a + 7) d) (w := right) _ rfl b
      (and_congr Iff.rfl decide_eq_true_iff),
    memByte_store (r.access .sdl a d) (w := left) _ rfl b (and_congr Iff.rfl decide_eq_true_iff)]
  simp only [access, bytes, Fin.val_ofNat]
  by_cases hr : right
  · rw [if_pos hr, if_pos (by omega)]
    congr 1
    omega
  by_cases hl : left
  · rw [if_neg hr, if_pos hl, if_pos (by omega)]
    congr 1
    omega
  · rw [if_neg hr, if_neg hl, if_neg (by omega)]

/-- `LWL` and `LWR` of the word at `a` load it, whatever the register held. -/
theorem lwl_lwr (a : Nat) (old : BitVec 64) (hk : k < 8) :
    regByte ((s.access .lwr (a + 3) ((r.access .lwl a old).load mem)).load mem) k =
      extended true 4 (bigEndian (memByte mem) 4 a) k := by
  rw [load_access _ _ rfl (by trivial) hk]
  simp only [loaded]
  refine congrFun (extended_congr (by decide) fun j hj => ?_) k
  by_cases h : j ≤ (a + 3) % 4
  · rw [if_pos h]
    rfl
  · rw [if_neg h, load_access _ _ rfl (by trivial) (by omega), loaded, extended, if_pos hj,
      if_pos (by omega)]

/-- `LDL` and `LDR` of the doubleword at `a` load it. -/
theorem ldl_ldr (a : Nat) (old : BitVec 64) (hk : k < 8) :
    regByte ((s.access .ldr (a + 7) ((r.access .ldl a old).load mem)).load mem) k =
      bigEndian (memByte mem) 8 a k := by
  rw [load_access _ _ rfl (by trivial) hk]
  simp only [loaded]
  by_cases h : k ≤ (a + 7) % 8
  · rw [if_pos h]
    rfl
  · rw [if_neg h, load_access _ _ rfl (by trivial) hk]
    simp only [loaded]
    rw [if_pos (by omega)]

/-- The bytes of a sign extension. -/
theorem regByte_signExtend {n b : Nat} (y : BitVec b) (hb : b = 8 * n) (hn : 0 < n) (hk : k < 8) :
    regByte (y.signExtend 64) k = extended true n (byteOf y) k := by
  ext i hi
  rw [extended, regByte, BitVec.getElem_extractLsb', BitVec.getLsbD_signExtend,
    decide_eq_true (by omega), Bool.true_and]
  by_cases h : k < n
  · rw [if_pos h, if_pos (by omega), byteOf, BitVec.getElem_extractLsb']
  · rw [if_neg h, if_neg (by omega), Bool.true_and, getElem_fill, BitVec.msb_eq_getLsbD_last,
      getLsbD_msb _ (by omega)]
    congr 2
    omega

/-- The bytes of a zero extension. -/
theorem regByte_setWidth {n b : Nat} (y : BitVec b) (hb : b = 8 * n) (hk : k < 8) :
    regByte (y.setWidth 64) k = extended false n (byteOf y) k := by
  ext i hi
  rw [extended, regByte, BitVec.getElem_extractLsb', BitVec.getLsbD_setWidth,
    decide_eq_true (by omega), Bool.true_and]
  by_cases h : k < n
  · rw [if_pos h, byteOf, BitVec.getElem_extractLsb']
  · rw [if_neg h, Bool.false_and, getElem_fill]
    exact BitVec.getLsbD_of_ge _ _ (by omega)

/-- A byte of a memory that holds the low bytes of `d` at `a`. -/
def Holds (n : Nat) (a : Nat) (d : BitVec 64) : Prop :=
  ∀ i < n, memByte mem (a + i) = regByte d (n - 1 - i)

section Holds

variable {mem : Nat → Line} {n a : Nat} {d : BitVec 64}

theorem Holds.bigEndian (h : Holds mem n a d) {j : Nat} (hj : j < n) :
    bigEndian (memByte mem) n a j = regByte d j := by
  rw [CoreReq.bigEndian, Nat.add_sub_assoc (by omega), h _ (by omega)]
  congr 1
  omega

/-- A word in memory is read back by the unaligned loads. -/
theorem Holds.lwl_lwr (h : Holds mem 4 a d) (old : BitVec 64) :
    (s.access .lwr (a + 3) ((r.access .lwl a old).load mem)).load mem =
      (d.extractLsb' 0 32).signExtend 64 := by
  refine eq_of_regByte fun k hk => ?_
  rw [CoreReq.lwl_lwr r s mem a old hk,
    regByte_signExtend (n := 4) _ rfl (by decide) hk]
  refine congrFun (extended_congr (by decide) fun j hj => ?_) k
  rw [h.bigEndian hj, byteOf_extractLsb' _ hj (by decide)]
  rfl

/-- A doubleword in memory is read back by the unaligned loads. -/
theorem Holds.ldl_ldr (h : Holds mem 8 a d) (old : BitVec 64) :
    (s.access .ldr (a + 7) ((r.access .ldl a old).load mem)).load mem = d := by
  refine eq_of_regByte fun k hk => ?_
  rw [CoreReq.ldl_ldr r s mem a old hk, h.bigEndian hk]

/-- So is each of its bytes. -/
theorem Holds.byte (h : Holds mem n a d) (old : BitVec 64) {i : Nat} (hi : i < n) :
    (r.access .lb (a + i) old).load mem = (regByte d (n - 1 - i)).signExtend 64 ∧
      (r.access .lbu (a + i) old).load mem = (regByte d (n - 1 - i)).setWidth 64 := by
  have hb : ∀ j < 1, CoreReq.bigEndian (memByte mem) 1 (a + i) j =
      byteOf (regByte d (n - 1 - i)) j := by
    intro j hj
    obtain rfl : j = 0 := by omega
    rw [byteOf_zero]
    exact h i hi
  constructor
  · refine eq_of_regByte fun k hk => ?_
    rw [load_access _ _ rfl (by trivial) hk, regByte_signExtend (n := 1) _ rfl (by decide) hk]
    exact congrFun (extended_congr (by decide) hb) k
  · refine eq_of_regByte fun k hk => ?_
    rw [load_access _ _ rfl (by trivial) hk, regByte_setWidth (n := 1) _ rfl hk]
    exact congrFun (extended_congr (by decide) hb) k

end Holds

/-- **The byte lanes of the L1D.**  The store merge writes the bytes of the operation, both load
datapaths return its result, and the unaligned stores and loads round-trip through memory. -/
theorem lanes_correct (line : Line) (a : Nat) (d old : BitVec 64) :
    (storeOp r.op = true → r.storeLine line = Line.merge r.writes r.bytes line) ∧
      (loadOp r.op = true → r.LoadAligned →
        ∀ k < 8, regByte (r.rspData line) k = loaded r.op line.byte r.off.val r.data k) ∧
      r.rspData2 line = r.rspData line ∧
      (let w := (s.access .swr (a + 3) d).store ((r.access .swl a d).store mem)
       (∀ b, memByte w b = if a ≤ b ∧ b < a + 4 then regByte d (a + 3 - b) else memByte mem b) ∧
       (u.access .lwr (a + 3) ((t.access .lwl a old).load w)).load w =
          (d.extractLsb' 0 32).signExtend 64 ∧
        ∀ i < 4, (t.access .lb (a + i) old).load w = (regByte d (3 - i)).signExtend 64 ∧
          (t.access .lbu (a + i) old).load w = (regByte d (3 - i)).setWidth 64) ∧
      (let w := (s.access .sdr (a + 7) d).store ((r.access .sdl a d).store mem)
       (∀ b, memByte w b = if a ≤ b ∧ b < a + 8 then regByte d (a + 7 - b) else memByte mem b) ∧
       (u.access .ldr (a + 7) ((t.access .ldl a old).load w)).load w = d ∧
        ∀ i < 8, (t.access .lb (a + i) old).load w = (regByte d (7 - i)).signExtend 64 ∧
          (t.access .lbu (a + i) old).load w = (regByte d (7 - i)).setWidth 64) := by
  refine ⟨r.storeLine_eq_merge line, fun hl ha k hk => r.rspData_byte line hl ha hk,
    r.rspData2_eq line, ?_, ?_⟩
  · have hw : Holds ((s.access .swr (a + 3) d).store ((r.access .swl a d).store mem)) 4 a d := by
      intro i hi
      rw [swl_swr, if_pos (by omega)]
      congr 1
      omega
    exact ⟨fun b => swl_swr r s mem a b d, hw.lwl_lwr t u old, fun i hi => hw.byte t old hi⟩
  · have hw : Holds ((s.access .sdr (a + 7) d).store ((r.access .sdl a d).store mem)) 8 a d := by
      intro i hi
      rw [sdl_sdr, if_pos (by omega)]
      congr 1
      omega
    exact ⟨fun b => sdl_sdr r s mem a b d, hw.ldl_ldr t u old, fun i hi => hw.byte t old hi⟩

/-- The hypotheses are met by a store and by an aligned load. -/
theorem lanes_correct_halfword :
    ({ L1d.blankReq with op := .sh, off := 2, data := 0x1234 } : CoreReq).storeLine Line.zero =
        Line.merge (writes { L1d.blankReq with op := .sh, off := 2, data := 0x1234 })
          (bytes { L1d.blankReq with op := .sh, off := 2, data := 0x1234 }) Line.zero ∧
      ∀ k < 8, regByte (({ L1d.blankReq with op := .lh, off := 6 } : CoreReq).rspData Line.zero) k =
        loaded .lh Line.zero.byte 6 0 k :=
  ⟨(lanes_correct { L1d.blankReq with op := .sh, off := 2, data := 0x1234 } L1d.blankReq
      L1d.blankReq L1d.blankReq (fun _ => Line.zero) Line.zero 0 0 0).1 rfl,
    (lanes_correct { L1d.blankReq with op := .lh, off := 6 } L1d.blankReq L1d.blankReq
      L1d.blankReq (fun _ => Line.zero) Line.zero 0 0 0).2.1 rfl (by decide)⟩

end CoreReq

end R9999
