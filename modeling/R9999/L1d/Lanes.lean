import R9999.Basic

/-!
# Byte lanes of the L1D

The part of `l1d.sv` that places the bytes of a store in a cache line: the byte masks
`make_mask` and `unc_st_mask`, and the merge that the store ops make onto the line read
from the array (`t_array_data`).  A bus word is the list of its bytes, least significant
first; the machine is big-endian, so the code swaps a register's bytes on the way in.

`writes` and `bytes` say which bytes of the line an operation writes and with what;
`storeLine_eq_merge` connects the two.
-/

namespace R9999

/-- `mem_req_t`: a request of the core to the L1D.  The address is kept as its line
number (virtual until the request is translated, physical afterwards) and its offset in
the line. -/
structure CoreReq where
  op : MemOp
  line : Nat
  off : Fin 16
  data : BitVec 64
  isStore : Bool
  commit : Bool
  cached : Bool
  mapped : Bool
  lsuHold : Bool
  isAtomic : Bool
  badAddr : Bool
  scOk : Bool
  restartId : Bool
  lsuIdx : Nat

/-- A bus word of `n` bytes, least significant byte first. -/
abbrev BusWord (n : Nat) := Fin n → BitVec 8

/-- Byte `k` of a register. -/
def regByte (d : BitVec 64) (k : Nat) : BitVec 8 := d.extractLsb' (8 * k) 8

/-- The low bytes of a register. -/
def regWord (n : Nat) (d : BitVec 64) : BusWord n := fun k => regByte d k

/-- `bswap32` and `bswap64`. -/
def bswap {n : Nat} (w : BusWord n) : BusWord n := fun k => w k.rev

/-- `select_cl32` and `select_cl64`: the aligned word `pos` of a line. -/
def selectCl (n : Nat) (line : Line) (pos : Nat) : BusWord n :=
  fun k => line (Fin.ofNat 16 (n * pos + k))

/-- `merge_cl32` and `merge_cl64`: replace the aligned word `pos` of a line. -/
def mergeCl (n : Nat) [NeZero n] (line : Line) (w : BusWord n) (pos : Nat) : Line :=
  fun b => if b.val / n = pos then w (Fin.ofNat n b.val) else line b

/-- The word `{m[top k bytes], d[bytes k and up]}` of the left-hand store ops. -/
def leftWord {n : Nat} [NeZero n] (k : Nat) (m d : BusWord n) : BusWord n :=
  fun j => if j.val + k < n then d (Fin.ofNat n (j.val + k)) else m j

/-- The word `{d[low k+1 bytes], m[the bytes below]}` of the right-hand store ops. -/
def rightWord {n : Nat} [NeZero n] (k : Nat) (m d : BusWord n) : BusWord n :=
  fun j => if j.val + k + 1 < n then m j else d (Fin.ofNat n (j.val + k + 1 - n))

namespace CoreReq

variable (r : CoreReq)

/-- `make_mask`. -/
def makeMask : Mask := fun b =>
  match r.op with
  | .ldl | .ldr | .sdl | .sdr | .lld | .scd | .ld | .sd => b.val / 8 = r.off.val / 8
  | .sb | .lb | .lbu => b.val = r.off.val
  | .sh | .lh | .lhu => r.off.val ≤ b.val ∧ b.val < r.off.val + 2
  | .sw | .lw | .ll | .sc => r.off.val ≤ b.val ∧ b.val < r.off.val + 4
  | .lwr | .lwl => b.val / 4 = r.off.val / 4
  | .swl => b.val / 4 = r.off.val / 4 ∧ r.off.val % 4 ≤ b.val % 4
  | .swr => b.val / 4 = r.off.val / 4 ∧ b.val % 4 ≤ r.off.val % 4
  | _ => r.off.val ≤ b.val

/-- `unc_st_mask`: an uncached `SDL` or `SDR` covers only its own bytes. -/
def uncStMask : Mask :=
  match r.op with
  | .sdl => fun b => b.val / 8 = r.off.val / 8 ∧ r.off.val % 8 ≤ b.val % 8
  | .sdr => fun b => b.val / 8 = r.off.val / 8 ∧ b.val % 8 ≤ r.off.val % 8
  | _ => r.makeMask

/-- `t_array_data`: the line read from the array with the store's bytes merged in. -/
def storeLine (line : Line) : Line :=
  let w := selectCl 4 line (r.off.val / 4)
  let t := bswap w
  let u := bswap (selectCl 8 line (r.off.val / 8))
  let d := regWord 4 r.data
  let e := regWord 8 r.data
  match r.op with
  | .sb => mergeCl 4 line (Function.update w (Fin.ofNat 4 r.off.val) (d 0)) (r.off.val / 4)
  | .sh =>
      let h : Fin 4 := if r.off.val % 4 < 2 then 0 else 2
      mergeCl 4 line (Function.update (Function.update w h (d 1)) (h + 1) (d 0)) (r.off.val / 4)
  | .sw => mergeCl 4 line (bswap d) (r.off.val / 4)
  | .sd => mergeCl 8 line (bswap e) (r.off.val / 8)
  | .sc => if r.scOk then mergeCl 4 line (bswap d) (r.off.val / 4) else line
  | .scd => if r.scOk then mergeCl 8 line (bswap e) (r.off.val / 8) else line
  | .swl => mergeCl 4 line (bswap (leftWord (r.off.val % 4) t d)) (r.off.val / 4)
  | .swr => mergeCl 4 line (bswap (rightWord (r.off.val % 4) t d)) (r.off.val / 4)
  | .sdl => mergeCl 8 line (bswap (leftWord (r.off.val % 8) u e)) (r.off.val / 8)
  | .sdr => mergeCl 8 line (bswap (rightWord (r.off.val % 8) u e)) (r.off.val / 8)
  | _ => Line.zero

/-- The ops whose pass through port 1 writes the array. -/
def storeOp : MemOp → Bool
  | .sb | .sh | .sw | .sd | .sc | .scd | .swl | .swr | .sdl | .sdr => true
  | _ => false

/-- The op holds the reservation it needs to write: every store but a failed `SC`. -/
def linked : Bool := r.scOk || !(r.op == .sc || r.op == .scd)

/-- `w_is_chop`: the CACHE hit ops. -/
def isChop : Bool := r.op == .chwb || r.op == .chwbinv || r.op == .chinv

/-! ## What a store writes -/

/-- The bytes of the line an architectural store writes. -/
def writes : Mask := fun b =>
  match r.op with
  | .sb => b.val = r.off.val
  | .sh => b.val / 2 = r.off.val / 2
  | .sw => b.val / 4 = r.off.val / 4
  | .sd => b.val / 8 = r.off.val / 8
  | .sc => r.scOk ∧ b.val / 4 = r.off.val / 4
  | .scd => r.scOk ∧ b.val / 8 = r.off.val / 8
  | .swl => b.val / 4 = r.off.val / 4 ∧ r.off.val % 4 ≤ b.val % 4
  | .swr => b.val / 4 = r.off.val / 4 ∧ b.val % 4 ≤ r.off.val % 4
  | .sdl => b.val / 8 = r.off.val / 8 ∧ r.off.val % 8 ≤ b.val % 8
  | .sdr => b.val / 8 = r.off.val / 8 ∧ b.val % 8 ≤ r.off.val % 8
  | _ => false

/-- The values it writes there, in big-endian order. -/
def bytes : Line := fun b =>
  match r.op with
  | .sb => regByte r.data 0
  | .sh => regByte r.data (1 - b.val % 2)
  | .sw | .sc => regByte r.data (3 - b.val % 4)
  | .sd | .scd => regByte r.data (7 - b.val % 8)
  | .swl => regByte r.data (3 + r.off.val % 4 - b.val % 4)
  | .swr => regByte r.data (r.off.val % 4 - b.val % 4)
  | .sdl => regByte r.data (7 + r.off.val % 8 - b.val % 8)
  | .sdr => regByte r.data (r.off.val % 8 - b.val % 8)
  | _ => 0

/-- Natural alignment of the ops that need it. -/
def Aligned : Prop :=
  match r.op with
  | .sh => r.off.val % 2 = 0
  | .sw | .sc => r.off.val % 4 = 0
  | .sd | .scd => r.off.val % 8 = 0
  | _ => True

instance : Decidable r.Aligned := by
  unfold Aligned
  split <;> infer_instance

/-- The requests the LSU makes.  The address unit flags a request that is not naturally
aligned; the LSU holds every store and every CACHE op until it retires. -/
structure Ok : Prop where
  aligned : r.badAddr = false → r.Aligned
  isStore : r.isStore = (storeOp r.op || r.isChop)
  lsuHold : r.isStore = true → r.lsuHold = true

instance : Decidable r.Ok :=
  decidable_of_iff ((r.badAddr = false → r.Aligned) ∧ r.isStore = (storeOp r.op || r.isChop) ∧
    (r.isStore = true → r.lsuHold = true)) ⟨fun ⟨a, b, c⟩ => ⟨a, b, c⟩, fun ⟨a, b, c⟩ => ⟨a, b, c⟩⟩

end CoreReq

section Merge

variable {n : Nat} (line : Line)

/-- A word of a line, put back where it came from. -/
theorem selectCl_of_div (b : Fin 16) {k : Nat} (h : k = n * (b.val / n) + b.val % n) :
    line (Fin.ofNat 16 k) = line b := by
  have hk : k = b.val := by rw [h, Nat.div_add_mod]
  rw [hk]
  exact congrArg line (Fin.ext (Nat.mod_eq_of_lt b.isLt))

variable [NeZero n]

/-- Reading a byte-swapped word. -/
theorem bswap_ofNat (w : BusWord n) (b : Nat) :
    bswap w (Fin.ofNat n b) = w (Fin.ofNat n (n - 1 - b % n)) := by
  have hn : 0 < n := Nat.pos_of_ne_zero (NeZero.ne n)
  have hb : b % n < n := Nat.mod_lt _ hn
  refine congrArg w (Fin.ext ?_)
  simp only [Fin.val_rev, Fin.val_ofNat]
  rw [Nat.mod_eq_of_lt (by omega : n - 1 - b % n < n)]
  omega

/-- A left-hand store keeps the bytes before the address. -/
theorem bswap_leftWord (d : BitVec 64) {k pos : Nat} (hk : k < n) (b : Fin 16)
    (hb : b.val / n = pos) :
    bswap (leftWord k (bswap (selectCl n line pos)) (regWord n d)) (Fin.ofNat n b.val) =
      if k ≤ b.val % n then regByte d (n - 1 + k - b.val % n) else line b := by
  have hn : 0 < n := Nat.pos_of_ne_zero (NeZero.ne n)
  have hm : b.val % n < n := Nat.mod_lt _ hn
  rw [bswap_ofNat]
  simp only [leftWord, Fin.val_ofNat, Nat.mod_eq_of_lt (by omega : n - 1 - b.val % n < n)]
  by_cases h : k ≤ b.val % n
  · rw [if_pos (by omega), if_pos h]
    simp only [regWord, Fin.val_ofNat]
    rw [Nat.mod_eq_of_lt (by omega)]
    congr 1
    omega
  · rw [if_neg (by omega), if_neg h, bswap_ofNat]
    refine selectCl_of_div (n := n) line b ?_
    simp only [Fin.val_ofNat]
    rw [Nat.mod_eq_of_lt (by omega : n - 1 - b.val % n < n),
      Nat.mod_eq_of_lt (by omega : n - 1 - (n - 1 - b.val % n) < n), hb]
    omega

/-- A right-hand store keeps the bytes after the address. -/
theorem bswap_rightWord (d : BitVec 64) {k pos : Nat} (hk : k < n) (b : Fin 16)
    (hb : b.val / n = pos) :
    bswap (rightWord k (bswap (selectCl n line pos)) (regWord n d)) (Fin.ofNat n b.val) =
      if b.val % n ≤ k then regByte d (k - b.val % n) else line b := by
  have hn : 0 < n := Nat.pos_of_ne_zero (NeZero.ne n)
  have hm : b.val % n < n := Nat.mod_lt _ hn
  rw [bswap_ofNat]
  simp only [rightWord, Fin.val_ofNat, Nat.mod_eq_of_lt (by omega : n - 1 - b.val % n < n)]
  by_cases h : b.val % n ≤ k
  · rw [if_neg (by omega), if_pos h]
    simp only [regWord, Fin.val_ofNat]
    rw [Nat.mod_eq_of_lt (by omega)]
    congr 1
    omega
  · rw [if_pos (by omega), if_neg h, bswap_ofNat]
    refine selectCl_of_div (n := n) line b ?_
    simp only [Fin.val_ofNat]
    rw [Nat.mod_eq_of_lt (by omega : n - 1 - b.val % n < n),
      Nat.mod_eq_of_lt (by omega : n - 1 - (n - 1 - b.val % n) < n), hb]
    omega

/-- A whole-word store. -/
theorem bswap_regWord (d : BitVec 64) (b : Nat) :
    bswap (regWord n d) (Fin.ofNat n b) = regByte d (n - 1 - b % n) := by
  have hn : 0 < n := Nat.pos_of_ne_zero (NeZero.ne n)
  rw [bswap_ofNat, regWord]
  simp only [Fin.val_ofNat]
  rw [Nat.mod_eq_of_lt (by omega : n - 1 - b % n < n)]

end Merge

namespace CoreReq

variable (r : CoreReq)

theorem storeLine_sb (line : Line) (ho : r.op = .sb) :
    r.storeLine line = Line.merge r.writes r.bytes line := by
  funext b
  simp only [storeLine, ho, Line.merge, writes, bytes, mergeCl]
  by_cases hb : b.val / 4 = r.off.val / 4
  · rw [if_pos hb]
    by_cases he : b.val = r.off.val
    · simp [he, regWord]
    · rw [Function.update_of_ne]
      · rw [if_neg (by simpa using he)]
        refine selectCl_of_div (n := 4) line b ?_
        simp [Fin.ofNat, hb]
      · intro h
        have h' := congrArg Fin.val h
        simp only [Fin.val_ofNat] at h'
        omega
  · rw [if_neg hb, if_neg]
    simp only [decide_eq_true_eq]
    intro h
    omega

theorem storeLine_sh (line : Line) (ho : r.op = .sh) :
    r.storeLine line = Line.merge r.writes r.bytes line := by
  funext b
  simp only [storeLine, ho, Line.merge, writes, bytes, mergeCl]
  by_cases hb : b.val / 4 = r.off.val / 4
  · rw [if_pos hb]
    have hsel : selectCl 4 line (r.off.val / 4) (Fin.ofNat 4 b.val) = line b := by
      refine selectCl_of_div (n := 4) line b ?_
      simp [Fin.ofNat, hb]
    by_cases hh : r.off.val % 4 < 2
    · rw [if_pos hh]
      have hm : b.val % 4 = 0 ∨ b.val % 4 = 1 ∨ 2 ≤ b.val % 4 := by omega
      have h01 : (0 : Fin 4) + 1 = 1 := rfl
      rcases hm with hm | hm | hm
      · have he : Fin.ofNat 4 b.val = 0 := Fin.ext hm
        have h2 : b.val % 2 = 0 := by omega
        rw [he, h01, Function.update_of_ne (by decide), Function.update_self,
          if_pos (by simp only [decide_eq_true_eq]; omega), h2]
        rfl
      · have he : Fin.ofNat 4 b.val = 1 := Fin.ext hm
        have h2 : b.val % 2 = 1 := by omega
        rw [he, h01, Function.update_self,
          if_pos (by simp only [decide_eq_true_eq]; omega), h2]
        rfl
      · have h0 : Fin.ofNat 4 b.val ≠ 0 := fun h => by
          have := congrArg Fin.val h
          simp only [Fin.val_ofNat, Fin.val_zero] at this
          omega
        have h1 : Fin.ofNat 4 b.val ≠ 1 := fun h => by
          have := congrArg Fin.val h
          simp only [Fin.val_ofNat, Fin.val_one] at this
          omega
        rw [h01, Function.update_of_ne h1, Function.update_of_ne h0, hsel,
          if_neg (by simp only [decide_eq_true_eq]; omega)]
    · rw [if_neg hh]
      have hm : b.val % 4 = 2 ∨ b.val % 4 = 3 ∨ b.val % 4 < 2 := by omega
      have h23 : (2 : Fin 4) + 1 = 3 := rfl
      rcases hm with hm | hm | hm
      · have he : Fin.ofNat 4 b.val = 2 := Fin.ext hm
        have h2 : b.val % 2 = 0 := by omega
        rw [he, h23, Function.update_of_ne (by decide), Function.update_self,
          if_pos (by simp only [decide_eq_true_eq]; omega), h2]
        rfl
      · have he : Fin.ofNat 4 b.val = 3 := Fin.ext hm
        have h2 : b.val % 2 = 1 := by omega
        rw [he, h23, Function.update_self,
          if_pos (by simp only [decide_eq_true_eq]; omega), h2]
        rfl
      · have h2 : Fin.ofNat 4 b.val ≠ 2 := fun h => by
          have := congrArg Fin.val h
          simp only [Fin.val_ofNat, Fin.val_two] at this
          omega
        have h3 : Fin.ofNat 4 b.val ≠ 3 := fun h => by
          have := congrArg Fin.val h
          have h3' : ((3 : Fin 4) : Nat) = 3 := rfl
          simp only [Fin.val_ofNat, h3'] at this
          omega
        rw [h23, Function.update_of_ne h3, Function.update_of_ne h2, hsel,
          if_neg (by simp only [decide_eq_true_eq]; omega)]
  · rw [if_neg hb, if_neg]
    simp only [decide_eq_true_eq]
    omega

/-- **The store merge.**  The line a store leaves is the line it found with the bytes it
writes replaced; a failed `SC` leaves the line as it is. -/
theorem storeLine_eq_merge (line : Line) (hs : storeOp r.op = true) :
    r.storeLine line = Line.merge r.writes r.bytes line := by
  have h4 : r.off.val % 4 < 4 := Nat.mod_lt _ (by decide)
  have h8 : r.off.val % 8 < 8 := Nat.mod_lt _ (by decide)
  by_cases hb1 : r.op = .sb
  · exact r.storeLine_sb line hb1
  by_cases hb2 : r.op = .sh
  · exact r.storeLine_sh line hb2
  funext b
  cases ho : r.op <;> rw [ho] at hs hb1 hb2 <;>
    first | exact absurd hs (by decide) | exact absurd rfl hb1 | exact absurd rfl hb2 | skip
  all_goals simp only [storeLine, ho, Line.merge, writes, bytes]
  case sw =>
    simp only [mergeCl, decide_eq_true_eq]
    split
    · exact bswap_regWord _ _
    · rfl
  case sd =>
    simp only [mergeCl, decide_eq_true_eq]
    split
    · exact bswap_regWord _ _
    · rfl
  case sc =>
    by_cases hk : r.scOk = true
    · simp only [mergeCl, hk, if_true, true_and, decide_eq_true_eq]
      split
      · exact bswap_regWord _ _
      · rfl
    · simp [hk]
  case scd =>
    by_cases hk : r.scOk = true
    · simp only [mergeCl, hk, if_true, true_and, decide_eq_true_eq]
      split
      · exact bswap_regWord _ _
      · rfl
    · simp [hk]
  case swl =>
    simp only [mergeCl, decide_eq_true_eq]
    by_cases hb : b.val / 4 = r.off.val / 4
    · simp only [hb, if_true, true_and]
      exact bswap_leftWord line r.data h4 b hb
    · simp only [hb, if_false, false_and]
  case swr =>
    simp only [mergeCl, decide_eq_true_eq]
    by_cases hb : b.val / 4 = r.off.val / 4
    · simp only [hb, if_true, true_and]
      exact bswap_rightWord line r.data h4 b hb
    · simp only [hb, if_false, false_and]
  case sdl =>
    simp only [mergeCl, decide_eq_true_eq]
    by_cases hb : b.val / 8 = r.off.val / 8
    · simp only [hb, if_true, true_and]
      exact bswap_leftWord line r.data h8 b hb
    · simp only [hb, if_false, false_and]
  case sdr =>
    simp only [mergeCl, decide_eq_true_eq]
    by_cases hb : b.val / 8 = r.off.val / 8
    · simp only [hb, if_true, true_and]
      exact bswap_rightWord line r.data h8 b hb
    · simp only [hb, if_false, false_and]

/-- The mask of an aligned uncached store covers exactly the bytes it writes, unless it
is a failed `SC`. -/
theorem uncStMask_eq_writes (hs : storeOp r.op = true) (ha : r.Aligned)
    (hl : r.linked = true) : r.uncStMask = r.writes := by
  funext b
  have hb := b.isLt
  cases ho : r.op <;> rw [ho] at hs <;> first | exact absurd hs (by decide) | skip
  all_goals
    simp only [Aligned, ho] at ha
    simp only [linked, ho] at hl
    simp only [uncStMask, makeMask, writes, ho]
  case sc =>
    have hk : r.scOk = true := by simpa using hl
    simp only [hk, true_and]
    congr 1
    apply propext
    omega
  case scd =>
    have hk : r.scOk = true := by simpa using hl
    simp only [hk, true_and]
  case sh | sw =>
    congr 1
    apply propext
    omega

end CoreReq

end R9999
