import R9999.L1d.Loads
import R9999.L1d.Pipe

/-!
# Store-to-load forwarding

A load on port 2 compares with the older stores that still wait in the store buffer.  When the
youngest of those that overlap it covers every byte it reads, the load takes the store's bytes
over the line's (`t_sb_fwd`); otherwise it is blocked until the stores have drained
(`t_sb_blk`).

The bytes are placed by `sb_line`, not by the merge that later writes the array, and the masks
compared are those of `make_mask`, some wider than the access.  `forward_eq_merge` shows that
the value is the one the load would read after every matching store had been merged, oldest
first.
-/

namespace R9999.L1d

/-- `lsu_sb_t`: what the LSU shows of its entries.  Row `j` of the matrix is the set of the
entries older than `j`. -/
structure LsuView (n : Nat) where
  live : Fin n → Bool
  epoch : Fin n → Bool
  dataOk : Fin n → Bool
  matrix : Fin n → Fin n → Bool

/-- `lsu_older_st` and `lsu_older_ep`: the stores a load saw as older when it issued. -/
structure OlderSt (n : Nat) where
  st : Fin n → Bool
  ep : Fin n → Bool

/-! ## The LSU's side -/

/-- The scheduler entry of a memory op at its issue: its row of the matrix, the live stores
and the entries that are still pending. -/
structure Issue (n : Nat) where
  op : MemOp
  row : Fin n → Bool
  stLive : Fin n → Bool
  pending : Fin n → Bool
  epoch : Fin n → Bool

/-- `t_mem_uq_generic_load`, by the op sent to the L1D. -/
def genericLoad : MemOp → Bool
  | .lw | .lwu | .lb | .lbu | .lh | .lhu | .ld | .lwl | .lwr | .ldl | .ldr => true
  | _ => false

namespace Issue

variable {n : Nat} (u : Issue n)

/-- `t_mem_elig` of a load: a strict op issues only when every older entry is gone. -/
def elig : Bool :=
  if genericLoad u.op then decide (∀ j, (u.row j && u.pending j) = false)
  else decide (∀ j, u.row j = false)

/-- `r_mem_uq_older_st` and `r_mem_uq_older_ep`. -/
def older : OlderSt n := ⟨fun j => u.row j && u.stLive j, u.epoch⟩

/-- A load that is not held by the LSU has no older store. -/
theorem older_of_strict (he : u.elig = true) (hl : genericLoad u.op = false) (j : Fin n) :
    u.older.st j = false := by
  rw [elig, hl, if_neg Bool.false_ne_true] at he
  show (u.row j && u.stLive j) = false
  rw [of_decide_eq_true he j, Bool.false_and]

end Issue

/-! ## The comparison -/

/-- The request the commit of a store-buffer slot makes (`t_mq_push_req`). -/
def SbSlot.req (e : SbSlot) (q : CoreReq) : CoreReq :=
  { q with
    line := e.line, off := e.off, op := e.op, data := e.data, cached := e.cached
    scOk := e.scOk, mapped := false, isStore := true, badAddr := false }

/-- `r_sb_mask`: the mask of the slot's op at its offset, written with them. -/
def SbSlot.mask (e : SbSlot) : Mask := (e.req blankReq).makeMask

/-- A bus word placed in an otherwise empty line. -/
def place {n : Nat} (w : BusWord n) (off : Fin 16) : Line :=
  fun b => if h : off.val ≤ b.val ∧ b.val - off.val < n then w ⟨b.val - off.val, h.2⟩ else 0

/-- `sb_line`: `SB` raw, the others byte-swapped. -/
def sbLine (op : MemOp) (off : Fin 16) (d : BitVec 64) : Line :=
  if op = .sb then place (regWord 1 d) off
  else if op = .sh then place (bswap (regWord 2 d)) off
  else if op = .sw then place (bswap (regWord 4 d)) off
  else place (bswap (regWord 8 d)) off

section Compare

variable {n : Nat} [NeZero n] (g : Geometry) (s : L1d) (i : Input) (v : LsuView n) (o : OlderSt n)

/-- `t_ld_mask2`. -/
def ldMask (s : L1d) : Mask := s.regs.req2.makeMask

/-- `t_sb_older`. -/
def sbOlder (j : Fin n) : Bool := o.st j && v.live j && v.epoch j == o.ep j

/-- `t_sb_match`. -/
def sbMatch (j : Fin n) : Bool :=
  sbOlder v o j && (s.sb j).line == (remappedReq2 g s i).line &&
    (List.finRange 16).any fun b => (s.sb j).mask b && ldMask s b

/-- `t_sb_youngest`: no other match is younger. -/
def sbYoungest (j : Fin n) : Bool :=
  sbMatch g s i v o j &&
    (List.finRange n).all fun k => !sbMatch g s i v o k || v.matrix j k || k == j

/-- `t_sb_y`: the last entry found youngest. -/
def sbY : Fin n :=
  (List.finRange n).foldl (fun y j => if sbYoungest g s i v o j then j else y) 0

/-- `w_sb_fwd_op`. -/
def fwdOp (op : MemOp) : Bool := op == .sb || op == .sh || op == .sw || op == .sd

/-- `|t_sb_match`. -/
def anyMatch : Bool := (List.finRange n).any fun j => sbMatch g s i v o j

/-- `t_sb_fwd`: the youngest overlapping older store covers every byte of the load. -/
def sbFwd : Bool :=
  let e := s.sb (sbY g s i v o)
  anyMatch g s i v o && v.dataOk (sbY g s i v o) && e.cached && (remappedReq2 g s i).cached &&
    fwdOp e.op && (List.finRange 16).all fun b => !ldMask s b || e.mask b

/-- `t_sb_blk`: an uncached load waits for every older store, a cached one for those it
overlaps and cannot forward from. -/
def sbBlk : Bool :=
  s.regs.req2.lsuHold && !s.regs.req2.isStore &&
    if (remappedReq2 g s i).cached then anyMatch g s i v o && !sbFwd g s i v o
    else (List.finRange n).any fun j => sbOlder v o j

/-- `t_data2`: the line read for port 2, with the store's bytes over it. -/
def tData2 (line : Line) : Line :=
  let e := s.sb (sbY g s i v o)
  if sbFwd g s i v o then Line.merge e.mask (sbLine e.op e.off e.data) line else line

/-- The answers of a port-2 pass. -/
inductive Reply2 where
  /-- A retired store goes to the miss queue. -/
  | commit
  /-- An answer without data: a dead op, a move or a probe, a fault. -/
  | noData
  /-- The address pass of a store. -/
  | address
  /-- The load goes back to the LSU (`core_mem_blk`). -/
  | blocked
  /-- A load answered with a store's bytes. -/
  | forward (d : BitVec 64)
  /-- A load answered from the array. -/
  | hit (d : BitVec 64)
  /-- A miss: a fill, or an entry of the miss queue. -/
  | miss (p : Pass)

/-- The pass a reply belongs to. -/
def Reply2.pass : Reply2 → Pass
  | .commit => .queue
  | .noData | .blocked | .forward _ | .hit _ => .answer
  | .address => .address
  | .miss p => p

/-- The port-2 pass with its data, arm by arm; `line` is what the array read. -/
def reply2 (line : Line) : Reply2 :=
  let r := s.regs
  let q := r.req2
  let cached := (remappedReq2 g s i).cached
  let d := (remappedReq2 g s i).rspData2 (tData2 g s i v o line)
  if q.commit then .commit
  else if i.drainDsComplete then .noData
  else if q.op == .mov || q.op == .tlbp then .noData
  else if q.badAddr || !i.tlbHit || !i.tlbValid then .noData
  else if q.isStore && !i.tlbDirty && !q.isChop then .noData
  else if i.tlbOor then .noData
  else if q.isStore && q.lsuHold && !q.isChop then .address
  else if q.lsuHold && !q.isStore && !cached && !i.req2Nonspec then .blocked
  else if sbBlk g s i v o then .blocked
  else if sbFwd g s i v o && q.lsuHold then .forward d
  else if q.isChop then .miss .queue
  else if port2Hit s i && !r.hitBusyAddr2 && !r.fillConflict2 && cached then .hit d
  else if directFillOk g s i then .miss .fill
  else .miss .queue

/-- It is the pass of the control model, at the store buffer's own `sbBlk` and `sbFwd`. -/
theorem pass2_eq (line : Line) :
    pass2 g s { i with sbBlk := sbBlk g s i v o, sbFwd := sbFwd g s i v o } =
      (reply2 g s i v o line).pass := by
  simp only [reply2, apply_ite Reply2.pass]
  rfl

end Compare

/-! ## Masks and lanes of the two sides -/

section Masks

variable {r : CoreReq}

/-- The mask of a load covers what it reads. -/
theorem makeMask_of_reads (hl : CoreReq.loadOp r.op = true) (ha : r.LoadAligned) {b : Fin 16}
    (hb : r.reads b = true) : r.makeMask b = true := by
  cases ho : r.op <;> rw [ho] at hl <;> first | exact absurd hl (by decide) | skip
  all_goals
    simp only [CoreReq.LoadAligned, ho] at ha
    simp only [CoreReq.reads, CoreReq.InAccess, ho, decide_eq_true_eq] at hb
    simp only [CoreReq.makeMask, ho, decide_eq_true_eq]
    omega

/-- The mask of a store covers what it writes. -/
theorem makeMask_of_writes (hs : CoreReq.storeOp r.op = true) (ha : r.Aligned) {b : Fin 16}
    (hb : r.writes b = true) : r.makeMask b = true := by
  cases ho : r.op <;> rw [ho] at hs <;> first | exact absurd hs (by decide) | skip
  all_goals
    simp only [CoreReq.Aligned, ho] at ha
    simp only [CoreReq.writes, ho, decide_eq_true_eq] at hb
    simp only [CoreReq.makeMask, ho, decide_eq_true_eq]
    omega

/-- The mask of a whole-access store is exactly what it writes. -/
theorem makeMask_eq_writes (hf : fwdOp r.op = true) (ha : r.Aligned) : r.makeMask = r.writes := by
  have hs : CoreReq.storeOp r.op = true := by
    cases ho : r.op <;> simp_all [fwdOp, CoreReq.storeOp]
  have hl : r.linked = true := by
    cases ho : r.op <;> simp_all [fwdOp, CoreReq.linked]
  rw [← r.uncStMask_eq_writes hs ha hl]
  cases ho : r.op <;> simp_all [fwdOp, CoreReq.uncStMask]

/-- A placed word, at one of its bytes. -/
theorem place_of_le {n : Nat} [NeZero n] (w : BusWord n) {off b : Fin 16} (hl : off.val ≤ b.val)
    (hn : b.val - off.val < n) : place w off b = w (Fin.ofNat n (b.val - off.val)) := by
  rw [place, dif_pos ⟨hl, hn⟩]
  exact congrArg w (Fin.ext (Nat.mod_eq_of_lt hn).symm)

/-- `sb_line` places the bytes the merge writes. -/
theorem sbLine_eq_bytes (hf : fwdOp r.op = true) (ha : r.Aligned) {b : Fin 16}
    (hb : r.writes b = true) : sbLine r.op r.off r.data b = r.bytes b := by
  cases ho : r.op <;> rw [ho] at hf <;> first | exact absurd hf (by decide) | skip
  all_goals
    simp only [CoreReq.Aligned, ho] at ha
    simp only [CoreReq.writes, ho, decide_eq_true_eq] at hb
    simp only [sbLine, CoreReq.bytes, ho]
  case sb =>
    rw [if_pos trivial, place_of_le _ (by omega) (by omega), regWord]
    congr 1
    simp only [Fin.val_ofNat]
    omega
  case sh =>
    rw [if_neg (by decide), if_pos trivial, place_of_le _ (by omega) (by omega), bswap_regWord]
    congr 1
    omega
  case sw =>
    rw [if_neg (by decide), if_neg (by decide), if_pos trivial,
      place_of_le _ (by omega) (by omega), bswap_regWord]
    congr 1
    omega
  case sd =>
    rw [if_neg (by decide), if_neg (by decide), if_neg (by decide),
      place_of_le _ (by omega) (by omega), bswap_regWord]
    congr 1
    omega

end Masks

/-! ## The youngest match -/

/-- A search that keeps the last hit finds the only one. -/
theorem foldl_last {α : Type} {p : α → Bool} {y : α} {l : List α} (hy : p y = true)
    (hu : ∀ j ∈ l, p j = true → j = y) (d : α) (hd : d = y ∨ y ∈ l) :
    l.foldl (fun a j => if p j then j else a) d = y := by
  induction l generalizing d with
  | nil => simpa using hd
  | cons x l ih =>
    rw [List.foldl_cons]
    refine ih (fun j hj => hu j (List.mem_cons_of_mem _ hj)) _ ?_
    by_cases hx : p x = true
    · rw [if_pos hx]
      exact .inl (hu x List.mem_cons_self hx)
    · rw [if_neg hx]
      rcases hd with hd | hd
      · exact .inl hd
      · rcases List.mem_cons.1 hd with rfl | hd
        · exact absurd hy hx
        · exact .inr hd

/-- The stores of a set in age order, oldest first: the matrix says of each which are older. -/
structure Aged {n : Nat} (v : LsuView n) (m : Fin n → Bool) (l : List (Fin n)) : Prop where
  mem : ∀ j, j ∈ l ↔ m j = true
  older : l.Pairwise fun a b => v.matrix b a = true ∧ v.matrix a b = false

section Youngest

variable {n : Nat} [NeZero n] {g : Geometry} {s : L1d} {i : Input} {v : LsuView n} {o : OlderSt n}
  {l : List (Fin n)} {y : Fin n}

/-- The last in age order is the one found youngest. -/
theorem sbY_eq (ha : Aged v (sbMatch g s i v o) (l ++ [y])) : sbY g s i v o = y := by
  have hy : sbMatch g s i v o y = true :=
    (ha.mem y).1 (List.mem_append_right _ List.mem_cons_self)
  have hold : ∀ k ∈ l, v.matrix y k = true ∧ v.matrix k y = false := fun k hk =>
    (List.pairwise_append.1 ha.older).2.2 k hk y List.mem_cons_self
  have hcase : ∀ k, sbMatch g s i v o k = true → k ∈ l ∨ k = y := fun k hk => by
    simpa using (ha.mem k).2 hk
  refine foldl_last ?_ (fun j _ hj => ?_) 0 (.inr (List.mem_finRange y))
  · rw [sbYoungest, hy, Bool.true_and, List.all_eq_true]
    intro k _
    by_cases hk : sbMatch g s i v o k = true
    · rcases hcase k hk with hl | rfl
      · simp [(hold k hl).1]
      · simp
    · simp [hk]
  · rw [sbYoungest, Bool.and_eq_true, List.all_eq_true] at hj
    rcases hcase j hj.1 with hl | rfl
    · have hm := hj.2 y (List.mem_finRange y)
      rw [hy, (hold j hl).2] at hm
      exact (eq_of_beq hm).symm
    · rfl

omit [NeZero n] in
theorem anyMatch_iff : anyMatch g s i v o = true ↔ ∃ j, sbMatch g s i v o j = true := by
  simp [anyMatch]

omit [NeZero n] in
/-- Without a match there is nothing to merge. -/
theorem Aged.eq_nil (ha : Aged v (sbMatch g s i v o) l) (h : anyMatch g s i v o = false) :
    l = [] := by
  refine List.eq_nil_iff_forall_not_mem.2 fun j hj => ?_
  have hm := anyMatch_iff.2 ⟨j, (ha.mem j).1 hj⟩
  exact Bool.false_ne_true (h.symm.trans hm)

/-- The line after the stores of a list have been committed, first to last. -/
def commitAll (s : L1d) (q : Fin n → CoreReq) (l : List (Fin n)) (line : Line) : Line :=
  l.foldl (fun x (j : Fin n) => ((s.sb j).req (q j)).storeLine x) line

/-- A forwarded load reads the bytes of the youngest store, as the committed line has them. -/
theorem tData2_of_fwd (hs : ∀ k, SlotOk g (s.sb k)) (hl : CoreReq.loadOp s.regs.req2.op = true)
    (hla : s.regs.req2.LoadAligned) (ha : Aged v (sbMatch g s i v o) l)
    (hf : sbFwd g s i v o = true) (q : Fin n → CoreReq) (line : Line) {b : Fin 16}
    (hb : s.regs.req2.reads b = true) :
    tData2 g s i v o line b = commitAll s q l line b := by
  simp only [tData2, hf, if_true]
  simp only [sbFwd, Bool.and_eq_true, List.all_eq_true] at hf
  obtain ⟨⟨⟨⟨⟨hany, -⟩, -⟩, -⟩, hop⟩, hcov⟩ := hf
  obtain ⟨l', y, rfl⟩ : ∃ l' y, l = l' ++ [y] := by
    obtain ⟨j, hj⟩ := anyMatch_iff.1 hany
    exact ⟨_, _, (List.dropLast_concat_getLast (List.ne_nil_of_mem ((ha.mem j).2 hj))).symm⟩
  rw [sbY_eq ha] at hop hcov ⊢
  -- the mask of the youngest store covers the byte, and is what the store writes
  have hal : ((s.sb y).req (q y)).Aligned := (hs y).aligned _ rfl rfl
  have hmask : (s.sb y).mask b = true := by
    have h := hcov b (List.mem_finRange b)
    rw [ldMask, makeMask_of_reads hl hla hb] at h
    exact h
  have hw : ((s.sb y).req (q y)).writes b = true := by
    rw [← makeMask_eq_writes hop hal]
    exact hmask
  have hlast : commitAll s q (l' ++ [y]) line =
      ((s.sb y).req (q y)).storeLine (commitAll s q l' line) := by
    rw [commitAll, List.foldl_append]
    rfl
  rw [hlast, CoreReq.storeLine_eq_merge _ _ (hs y).storeOp, Line.merge, Line.merge, if_pos hmask,
    if_pos hw]
  exact sbLine_eq_bytes (r := (s.sb y).req (q y)) hop hal hw

end Youngest

/-! ## A load's pass -/

/-- The port-2 pass of a load the LSU issued. -/
structure LoadPass {n : Nat} (u : Issue n) (r : CoreReq) : Prop where
  elig : u.elig = true
  op : r.op = u.op
  load : CoreReq.loadOp r.op = true
  isStore : r.isStore = false
  commit : r.commit = false
  lsuHold : r.lsuHold = genericLoad u.op
  aligned : r.badAddr = false → r.LoadAligned

/-- The data of a reply that has some. -/
def Reply2.data : Reply2 → Option (BitVec 64)
  | .forward d | .hit d => some d
  | _ => none

section Pass

variable {n : Nat} [NeZero n] {g : Geometry} {s : L1d} {i : Input} {v : LsuView n} {u : Issue n}
  {l : List (Fin n)}

/-- The load overlaps an older live store. -/
def Overlaps (g : Geometry) (s : L1d) (i : Input) (v : LsuView n) (o : OlderSt n)
    (q : Fin n → CoreReq) : Prop :=
  ∃ j b, sbOlder v o j = true ∧ (s.sb j).line = (remappedReq2 g s i).line ∧
    ((s.sb j).req (q j)).writes b = true ∧ s.regs.req2.reads b = true

omit [NeZero n] in
/-- A load that is not held has nothing to compare with. -/
theorem LoadPass.held (hr : LoadPass u s.regs.req2) {j : Fin n}
    (hj : sbOlder v u.older j = true) : s.regs.req2.lsuHold = true := by
  rw [hr.lsuHold]
  by_contra h
  rw [sbOlder, u.older_of_strict hr.elig (by simpa using h) j] at hj
  exact Bool.false_ne_true hj

/-- What a reply with data says of the pass. -/
theorem reply2_data {o : OlderSt n} {line : Line} {d : BitVec 64}
    (h : (reply2 g s i v o line).data = some d) :
    s.regs.req2.badAddr = false ∧ sbBlk g s i v o = false ∧
      (remappedReq2 g s i).cached = true ∧
      d = (remappedReq2 g s i).rspData2 (tData2 g s i v o line) := by
  simp only [reply2, apply_ite Reply2.data] at h
  simp only [Reply2.data, Option.ite_none_left_eq_some, Bool.or_eq_true, not_or,
    Bool.not_eq_true] at h
  obtain ⟨-, -, -, ⟨⟨hb, -⟩, -⟩, -, -, -, -, hblk, h⟩ := h
  refine ⟨hb, hblk, ?_⟩
  split at h
  · rename_i hf
    refine ⟨?_, (Option.some.inj h).symm⟩
    simp only [sbFwd, Bool.and_eq_true] at hf
    exact hf.1.1.1.2
  split at h
  · nomatch h
  split at h
  · rename_i hh
    exact ⟨(Bool.and_eq_true_iff.1 hh).2, (Option.some.inj h).symm⟩
  split at h <;> nomatch h

/-- A load that overlaps an older store and does not forward is blocked by the comparison. -/
theorem sbBlk_of_overlaps (hr : LoadPass u s.regs.req2) (hs : ∀ k, SlotOk g (s.sb k))
    (hb : s.regs.req2.badAddr = false) {q : Fin n → CoreReq} (ho : Overlaps g s i v u.older q)
    (hf : sbFwd g s i v u.older = false) : sbBlk g s i v u.older = true := by
  obtain ⟨j, b, hj, hline, hw, hrd⟩ := ho
  have hm : sbMatch g s i v u.older j = true := by
    rw [sbMatch, hj, hline, beq_self_eq_true, Bool.true_and, Bool.true_and, List.any_eq_true]
    refine ⟨b, List.mem_finRange b, ?_⟩
    rw [ldMask, makeMask_of_reads hr.load (hr.aligned hb) hrd, Bool.and_true]
    exact makeMask_of_writes (r := (s.sb j).req (q j)) (hs j).storeOp ((hs j).aligned _ rfl rfl) hw
  rw [sbBlk, hr.held hj, hr.isStore, hf]
  by_cases hc : (remappedReq2 g s i).cached = true
  · rw [if_pos hc, anyMatch_iff.2 ⟨j, hm⟩]
    rfl
  · rw [if_neg hc]
    simp only [Bool.not_false, Bool.true_and, List.any_eq_true]
    exact ⟨j, List.mem_finRange j, hj⟩

/-- **Store-to-load forwarding is memory.**  The data a load's pass returns is what the load
would read once the stores that match had been committed to the line in age order; and a load
that overlaps an older store without forwarding gets no data. -/
theorem forward_eq_merge (hr : LoadPass u s.regs.req2) (hs : ∀ k, SlotOk g (s.sb k))
    (ha : Aged v (sbMatch g s i v u.older) l) (q : Fin n → CoreReq) (line : Line) :
    (∀ d, (reply2 g s i v u.older line).data = some d →
        d = (remappedReq2 g s i).rspData2 (commitAll s q l line)) ∧
      (Overlaps g s i v u.older q → sbFwd g s i v u.older = false →
        reply2 g s i v u.older line = .noData ∨ reply2 g s i v u.older line = .blocked) := by
  constructor
  · intro d hd
    obtain ⟨hb, hblk, hc, rfl⟩ := reply2_data hd
    refine CoreReq.rspData_congr _ hr.load (hr.aligned hb) fun b hrd => ?_
    by_cases hf : sbFwd g s i v u.older = true
    · exact tData2_of_fwd hs hr.load (hr.aligned hb) ha hf q line hrd
    · -- neither forwarded nor blocked: no store matches
      have hnone : anyMatch g s i v u.older = false := by
        by_contra hany
        obtain ⟨j, hj⟩ := anyMatch_iff.1 (by simpa using hany)
        have hold : sbOlder v u.older j = true := by
          simp only [sbMatch, Bool.and_eq_true] at hj
          exact hj.1.1
        rw [sbBlk, hr.held hold, hr.isStore, if_pos hc, (by simpa using hf : sbFwd _ _ _ _ _ = false)]
          at hblk
        simp only [Bool.not_false, Bool.and_true, Bool.true_and] at hblk
        exact hany hblk
      rw [ha.eq_nil hnone, tData2, if_neg hf]
      rfl
  · intro ho hf
    have hcond : s.regs.req2.badAddr = true ∨ sbBlk g s i v u.older = true := by
      by_cases hbad : s.regs.req2.badAddr = true
      · exact .inl hbad
      · exact .inr (sbBlk_of_overlaps hr hs (by simpa using hbad) ho hf)
    simp only [reply2, hr.commit, hr.isStore, Bool.false_and, Bool.false_eq_true, if_false]
    split
    · exact .inl rfl
    split
    · exact .inl rfl
    split
    · exact .inl rfl
    rename_i hbad
    split
    · exact .inl rfl
    split
    · exact .inr rfl
    rcases hcond with hbad' | hblk
    · rw [hbad', Bool.true_or, Bool.true_or] at hbad
      exact absurd rfl hbad
    · rw [if_pos hblk]
      exact .inr rfl

end Pass

section Examples

/-- The smallest caches. -/
def oneSet : Geometry := ⟨1, 1, 1, 1, Nat.one_pos, Nat.one_pos, Nat.one_pos⟩

/-- A load of a word over a waiting store of the same word. -/
def loadOverStore : L1d :=
  { reset (fun _ => 0) (fun _ => Line.zero) with
    regs := { resetRegs with req2 := { blankReq with op := .lw, cached := true, lsuHold := true } }
    sb := fun _ => { blankSlot with op := .sw, cached := true, data := 0x11223344 } }

/-- The LSU's view of the store, and the issue of the load. -/
def oneStore : LsuView 1 := ⟨fun _ => true, fun _ => false, fun _ => true, fun _ _ => false⟩

/-- The issue of the load, behind the store. -/
def loadIssue : Issue 1 := ⟨.lw, fun _ => true, fun _ => true, fun _ => false, fun _ => false⟩

/-- The hypotheses are met by a word load over a word store. -/
theorem forward_eq_merge_word :
    (∀ d, (reply2 oneSet loadOverStore idleInput oneStore loadIssue.older Line.zero).data = some d →
        d = (remappedReq2 oneSet loadOverStore idleInput).rspData2
          (commitAll loadOverStore (fun _ => blankReq) [(0 : Fin 1)] Line.zero)) ∧
      (Overlaps oneSet loadOverStore idleInput oneStore loadIssue.older (fun _ => blankReq) →
        sbFwd oneSet loadOverStore idleInput oneStore loadIssue.older = false →
        reply2 oneSet loadOverStore idleInput oneStore loadIssue.older Line.zero = .noData ∨
          reply2 oneSet loadOverStore idleInput oneStore loadIssue.older Line.zero = .blocked) :=
  forward_eq_merge ⟨by decide, rfl, rfl, rfl, rfl, rfl, fun _ => by decide⟩
    (fun _ =>
      { placed := ⟨rfl, Nat.zero_lt_one⟩
        storeOp := rfl
        aligned := fun q ho hf => by
          simp only [CoreReq.Aligned, ho, hf, loadOverStore, blankSlot]
          decide })
    ⟨by decide +kernel, List.pairwise_singleton _ _⟩ _ _

end Examples

end R9999.L1d
