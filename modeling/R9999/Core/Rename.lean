import Mathlib.Data.List.FinRange
import R9999.Core.Window
import R9999.Hw.Rename

/-!
# The rename stage

The alloc and retire maps and the free lists of the four kinds of destination: the integer
registers, the FP registers, `HILO` and the FP condition codes.  The free lists of the
integer and FP registers are split into halves by the pipe that writes the register, and
the integer one by parity as well, so that the two destinations of a dual allocation
differ.

The maps say whether the core may allocate, and give an allocation its registers.
-/

namespace R9999

namespace Core

open Hw (Rename Maps Owned replay)

/-! ## The machine -/

/-- The registers of the rename stage. -/
structure RenameRegs where
  gpr : Maps (Fin 32) (Fin 128)
  hilo : Maps (Fin 1) (Fin 4)
  fcr : Maps (Fin 1) (Fin 4)
  fp : Maps (Fin 32) (Fin 128)
  bankSel : Bool

/-- The core with its rename stage, and the entries that were removed from the reorder
buffer without retiring since the maps were last copied. -/
structure RenameState where
  core : State
  regs : RenameRegs
  dropped : List Entry

/-- `find_lowest_set_bit`. -/
def lowest {n : Nat} (free : Fin n → Bool) : Option (Fin n) := (List.finRange n).find? free

section Picks

variable (r : RenameRegs) (u v : UopFields)

/-- The lowest free integer register for `u` of a parity. -/
def gprFfs (even : Bool) : Option (Fin 128) :=
  lowest fun n =>
    r.gpr.free n && (decide (64 ≤ n.val) == u.isMem) && (decide (n.val % 2 = 0) == even)

/-- The lowest free FP register of a bank. -/
def fpFfs (isMem : Bool) : Option (Fin 128) :=
  lowest fun n => r.fp.free n && (decide (64 ≤ n.val) == isMem)

/-- `t_enough_*`. -/
def enough : Bool :=
  !(u.dstValid && (gprFfs r u r.bankSel).isNone) && !(u.hiloDstValid && (lowest r.hilo.free).isNone) &&
    !(u.fpDstValid && (fpFfs r u.isMem).isNone) && !(u.fcrDstValid && (lowest r.fcr.free).isNone)

/-- `t_enough_next_*`. -/
def enoughNext : Bool :=
  !(v.dstValid && (gprFfs r v !r.bankSel).isNone) && !v.hiloDstValid &&
    !(v.fpDstValid && ((fpFfs r v.isMem).isNone || u.fpDstValid)) && !v.fcrDstValid

/-- `n_prf_entry`, and the others below.  What an encoder gives for an empty list is its
default. -/
def nPrf : Fin 128 := (gprFfs r u r.bankSel).getD 0

def nPrf2 : Fin 128 := (gprFfs r v !r.bankSel).getD 0

def nHilo : Fin 4 := (lowest r.hilo.free).getD 3

def nFcr : Fin 4 := (lowest r.fcr.free).getD 3

/-- `n_fp_prf_entry`: both slots share it. -/
def nFp (c : Comb) : Fin 128 :=
  (fpFfs r (if c.alloc && u.fpDstValid then u.isMem
    else if c.allocTwo && v.fpDstValid then v.isMem else false)).getD 0

/-- The architectural register of a destination field. -/
def areg (n : Nat) : Fin 32 := Fin.ofNat 32 n

/-- `pdst` and `old_pdst` of the first slot. -/
def tailTag (c : Comb) (seq : Nat) : Tag :=
  if u.dstValid then ⟨nPrf r u, r.gpr.rat (areg u.dst), seq⟩
  else if u.hiloDstValid then ⟨nHilo r, r.hilo.rat 0, seq⟩
  else if u.fcrDstValid then ⟨nFcr r, r.fcr.rat 0, seq⟩
  else if u.fpDstValid then ⟨nFp r u v c, r.fp.rat (areg u.dst), seq⟩
  else ⟨0, 0, seq⟩

/-- `pdst` and `old_pdst` of the second slot. -/
def nextTailTag (c : Comb) (seq : Nat) : Tag :=
  if v.dstValid then
    ⟨nPrf2 r v,
      if u.dstValid && decide (u.dst = v.dst) then (tailTag r u v c seq).pdst
      else r.gpr.rat (areg v.dst), seq⟩
  else if v.fpDstValid then
    ⟨nFp r u v c,
      if u.fpDstValid && decide (u.dst = v.dst) then (tailTag r u v c seq).pdst
      else r.fp.rat (areg v.dst), seq⟩
  else ⟨0, 0, seq⟩

end Picks

/-- What a cycle does to a register file: the registers it renames, the names it takes from
the free list, and the renames it retires. -/
structure RenameTurn (A P : Type) where
  alloc : List (A × P)
  take : List P
  retire : List (Rename A P)

section Turn

variable {A P : Type} [DecidableEq A] [DecidableEq P]

/-- The next maps and free lists.  `copy` is `t_rat_copy`. -/
def tickMaps (m : Maps A P) (t : RenameTurn A P) (copy : Bool) : Maps A P where
  rat :=
    if copy then m.retireRat else t.alloc.foldl (fun f x => Function.update f x.1 x.2) m.rat
  retireRat := t.retire.foldl (fun f x => Function.update f x.reg x.new) m.retireRat
  free :=
    if copy then m.retireFree
    else
      t.retire.foldl (fun f x => Function.update f x.old true)
        (t.take.foldl (fun f n => Function.update f n false) m.free)
  retireFree :=
    t.retire.foldl (fun f x => Function.update (Function.update f x.new false) x.old true)
      m.retireFree

/-- A kind of destination.  The maps look at the valid bits in turn, the free list at each
one of them; the second slot has fewer kinds. -/
structure Kind (A P : Type) where
  dst : UopFields → Option A
  dstTwo : UopFields → Option A
  takes : UopFields → Bool
  takesTwo : UopFields → Bool
  /-- The low bits of a register number that name one of this kind. -/
  reg : Nat → P

variable (d : Kind A P)

/-- The rename that an entry carries. -/
def Kind.rename (dst : UopFields → Option A) (e : Entry) : Option (Rename A P) :=
  (dst e.uop.toUopFields).map fun a => ⟨a, d.reg e.tag.pdst, d.reg e.tag.oldPdst⟩

/-- What the core does in a cycle to a register file, when the names on offer are `n` and
`n2`. -/
def Kind.turn (n n2 : P) (s : State) (c : Comb) : RenameTurn A P where
  alloc :=
    (if c.alloc then (s.dq[0]?.bind (d.dst ·.toUopFields)).toList.map (·, n) else []) ++
      if c.allocTwo then (s.dq[1]?.bind (d.dstTwo ·.toUopFields)).toList.map (·, n2) else []
  take :=
    (if c.alloc && s.dq[0]?.any (d.takes ·.toUopFields) then [n] else []) ++
      if c.allocTwo && s.dq[1]?.any (d.takesTwo ·.toUopFields) then [n2] else []
  retire :=
    if c.retire then
      (s.rob[0]?.bind (d.rename d.dst)).toList ++
        if c.retireTwo then (s.rob[1]?.bind (d.rename d.dstTwo)).toList else []
    else []

end Turn

/-- The integer registers. -/
def gprKind : Kind (Fin 32) (Fin 128) where
  dst u := if u.dstValid then some (areg u.dst) else none
  dstTwo u := if u.dstValid then some (areg u.dst) else none
  takes u := u.dstValid
  takesTwo u := u.dstValid
  reg := Fin.ofNat 128

/-- `HILO`. -/
def hiloKind : Kind (Fin 1) (Fin 4) where
  dst u := if u.dstValid then none else if u.hiloDstValid then some 0 else none
  dstTwo _ := none
  takes u := u.hiloDstValid
  takesTwo _ := false
  reg := Fin.ofNat 4

/-- The FP condition codes. -/
def fcrKind : Kind (Fin 1) (Fin 4) where
  dst u :=
    if u.dstValid then none
    else if u.hiloDstValid then none
    else if u.fcrDstValid then some 0
    else none
  dstTwo _ := none
  takes u := u.fcrDstValid
  takesTwo _ := false
  reg := Fin.ofNat 4

/-- The FP registers. -/
def fpKind : Kind (Fin 32) (Fin 128) where
  dst u :=
    if u.dstValid then none
    else if u.hiloDstValid then none
    else if u.fcrDstValid then none
    else if u.fpDstValid then some (areg u.dst)
    else none
  dstTwo u :=
    if u.dstValid then none else if u.fpDstValid then some (areg u.dst) else none
  takes u := u.fpDstValid
  takesTwo u := u.fpDstValid
  reg := Fin.ofNat 128

section Machine

variable (p : Params) (s : RenameState) (i : Input)

/-- The fields of a decoded operation, as they read when there is none. -/
def opAt (o : Option Uop) : UopFields :=
  match o with
  | none => UopFields.blank .nop 0 0
  | some u => u.toUopFields

/-- The two oldest decoded operations. -/
def t_uop : UopFields := opAt s.core.dq[0]?

def t_uop2 : UopFields := opAt s.core.dq[1]?

/-- The inputs of the core with the state of the free lists. -/
def withEnough : Input :=
  { i with
    enough := enough s.regs (t_uop s)
    enoughNext := enoughNext s.regs (t_uop s) (t_uop2 s) }

/-- The outputs of the core in this cycle. -/
def renameComb : Comb := comb p s.core (withEnough s i)

/-- The inputs of the core with the registers of an allocation. -/
def withTags : Input :=
  { withEnough s i with
    tag := tailTag s.regs (t_uop s) (t_uop2 s) (renameComb p s i) i.tag.cp0Seq
    tagTwo := nextTailTag s.regs (t_uop s) (t_uop2 s) (renameComb p s i) i.tagTwo.cp0Seq }

/-- What the cycle does to the integer registers, and so on. -/
def gprTurn : RenameTurn (Fin 32) (Fin 128) :=
  gprKind.turn (nPrf s.regs (t_uop s)) (nPrf2 s.regs (t_uop2 s)) s.core (renameComb p s i)

def hiloTurn : RenameTurn (Fin 1) (Fin 4) :=
  hiloKind.turn (nHilo s.regs) (nHilo s.regs) s.core (renameComb p s i)

def fcrTurn : RenameTurn (Fin 1) (Fin 4) :=
  fcrKind.turn (nFcr s.regs) (nFcr s.regs) s.core (renameComb p s i)

def fpTurn : RenameTurn (Fin 32) (Fin 128) :=
  fpKind.turn (nFp s.regs (t_uop s) (t_uop2 s) (renameComb p s i))
    (nFp s.regs (t_uop s) (t_uop2 s) (renameComb p s i)) s.core (renameComb p s i)

/-- One cycle. -/
def renameNext : RenameState :=
  let c := renameComb p s i
  { core := next p s.core (withTags p s i)
    regs :=
      { gpr := tickMaps s.regs.gpr (gprTurn p s i) c.ratCopy
        hilo := tickMaps s.regs.hilo (hiloTurn p s i) c.ratCopy
        fcr := tickMaps s.regs.fcr (fcrTurn p s i) c.ratCopy
        fp := tickMaps s.regs.fp (fpTurn p s i) c.ratCopy
        bankSel := !s.regs.bankSel }
    dropped :=
      if c.ratCopy then []
      else s.dropped ++ if c.retire then [] else s.core.rob.take (leaving c) }

end Machine

/-- The reset values: the first names are mapped and the others are free. -/
def resetMaps (k n : Nat) (h : k ≤ n) : Maps (Fin k) (Fin n) where
  rat := Fin.castLE h
  retireRat := Fin.castLE h
  free x := decide (k ≤ x.val)
  retireFree x := decide (k ≤ x.val)

def renameReset : RenameState where
  core := reset
  regs :=
    { gpr := resetMaps 32 128 (by decide)
      hilo := resetMaps 1 4 (by decide)
      fcr := resetMaps 1 4 (by decide)
      fp := resetMaps 32 128 (by decide)
      bankSel := false }
  dropped := []

/-! ## One register file in a cycle -/

section Step

variable {A P : Type} {d : Kind A P}

/-- The free list looks at a valid bit exactly when the map does. -/
structure Kind.Ok (d : Kind A P) : Prop where
  takes : ∀ u : UopFields, u.Ok → d.takes u = (d.dst u).isSome
  takesTwo : ∀ u : UopFields, u.Ok → d.takesTwo u = (d.dstTwo u).isSome
  plain : ∀ u : UopFields, u.hiloDstValid = false → u.fcrDstValid = false →
    d.dstTwo u = d.dst u

theorem gprKind_ok : gprKind.Ok where
  takes u _ := by cases h : u.dstValid <;> simp [gprKind, h]
  takesTwo u _ := by cases h : u.dstValid <;> simp [gprKind, h]
  plain _ _ _ := rfl

theorem hiloKind_ok : hiloKind.Ok where
  takes u hu := by
    have hhilo := hu.hilo
    cases h : u.dstValid <;> cases h2 : u.hiloDstValid <;> simp_all [hiloKind]
  takesTwo _ _ := rfl
  plain u hh _ := by simp [hiloKind, hh]

theorem fcrKind_ok : fcrKind.Ok where
  takes u hu := by
    have hhilo := hu.hilo
    have hfcr := hu.fcr
    cases h : u.dstValid <;> cases h2 : u.hiloDstValid <;> cases h3 : u.fcrDstValid <;>
      simp_all [fcrKind]
  takesTwo _ _ := rfl
  plain u _ hf := by simp [fcrKind, hf]

theorem fpKind_ok : fpKind.Ok where
  takes u hu := by
    have hhilo := hu.hilo
    have hfcr := hu.fcr
    have hfp := hu.fp
    cases h : u.dstValid <;> cases h2 : u.hiloDstValid <;> cases h3 : u.fcrDstValid <;>
      cases h4 : u.fpDstValid <;> simp_all [fpKind]
  takesTwo u hu := by
    have hfp := hu.fp
    cases h : u.dstValid <;> cases h4 : u.fpDstValid <;> simp_all [fpKind]
  plain u hh hf := by simp [fpKind, hh, hf]

/-- The renames that the entries of `q` carry. -/
def Kind.inflight (d : Kind A P) (q : List Entry) : List (Rename A P) :=
  q.filterMap (d.rename d.dst)

theorem inflight_append (q t : List Entry) :
    d.inflight (q ++ t) = d.inflight q ++ d.inflight t := List.filterMap_append

theorem inflight_cons (e : Entry) (q : List Entry) :
    d.inflight (e :: q) = (d.rename d.dst e).toList ++ d.inflight q := by
  simp only [Kind.inflight]
  cases h : d.rename d.dst e with
  | none => rw [List.filterMap_cons_none h]; rfl
  | some r => rw [List.filterMap_cons_some h]; rfl

/-- The execution units change no rename. -/
theorem inflight_progress (s : State) (i : Input) (n : Nat) :
    d.inflight ((progress s i).drop n) = d.inflight (s.rob.drop n) := by
  have h : (progress s i).map (fun e => (e.uop, e.tag)) =
      s.rob.map fun e => (e.uop, e.tag) := by
    apply List.ext_getElem?
    intro k
    rw [List.getElem?_map, progress_getElem?, List.getElem?_map, Option.map_map]
    cases s.rob[k]? <;> simp
  have hfactor (l : List Entry) : d.inflight l =
      (l.map fun e => (e.uop, e.tag)).filterMap fun x =>
        (d.dst x.1.toUopFields).map fun a => ⟨a, d.reg x.2.pdst, d.reg x.2.oldPdst⟩ := by
    rw [List.filterMap_map]
    rfl
  rw [hfactor, hfactor, List.map_drop, List.map_drop, h]

variable {p : Params} {s : State} {j : Input} {m : Maps A P} {n n2 : P}

/-- What retires are the oldest renames. -/
theorem turn_retire (n n2 : P) (hd : d.Ok) (hok : RobOk s) (hf : Fits s) :
    ((comb p s j).retire = false ∧ (d.turn n n2 s (comb p s j)).retire = []) ∨
      ((comb p s j).retire = true ∧ (s.regs.state = .active ∨ s.regs.state = .drain) ∧
        d.inflight s.rob =
          (d.turn n n2 s (comb p s j)).retire ++
            d.inflight (s.rob.drop (leaving (comb p s j)))) := by
  have hexit := exit_cases (p := p) (i := j) hok hf
  cases hexit with
  | none hl hr => exact .inl ⟨hr, by simp [Kind.turn, hr]⟩
  | fault hs hl hr => exact .inl ⟨hr, by simp [Kind.turn, hr]⟩
  | one e es hrob hdone harch hs hl hr h2 =>
    refine .inr ⟨hr, hs.imp_right And.left, ?_⟩
    simp [Kind.turn, hr, h2, hl, hrob, inflight_cons]
  | two e f es hrob hdone hdone2 hfault hfault2 hplain hs hl hr h2 =>
    obtain ⟨-, hhilo, hfcr⟩ := hplain
    have hplain : d.rename d.dstTwo f = d.rename d.dst f := by
      simp only [Kind.rename, hd.plain _ hhilo hfcr]
    refine .inr ⟨hr, .inl hs, ?_⟩
    simp [Kind.turn, hr, h2, hl, hrob, inflight_cons, hplain]

variable [DecidableEq A]

/-- The names that are offered to the allocation, and the tags, are as the maps say. -/
structure Kind.Supplied (d : Kind A P) (m : Maps A P) (n n2 : P) (s : State) (j : Input)
    (c : Comb) : Prop where
  plain : ∀ u v us, s.dq = u :: v :: us → c.allocTwo = true →
    v.hiloDstValid = false ∧ v.fcrDstValid = false
  first : ∀ u us a, s.dq = u :: us → c.alloc = true → d.dst u.toUopFields = some a →
    m.free n = true ∧ d.reg j.tag.pdst = n ∧ d.reg j.tag.oldPdst = m.rat a
  second : ∀ u v us b, s.dq = u :: v :: us → c.allocTwo = true →
    d.dst v.toUopFields = some b →
    m.free n2 = true ∧ d.reg j.tagTwo.pdst = n2 ∧ (d.dst u.toUopFields ≠ none → n ≠ n2) ∧
      d.reg j.tagTwo.oldPdst =
        (d.dst u.toUopFields).elim m.rat (fun a => Function.update m.rat a n) b

/-- The names that are taken are free and differ, and the new entries carry the renames. -/
theorem turn_alloc (hd : d.Ok) (hok : RobOk s) (hf : Fits s)
    (hsup : d.Supplied m n n2 s j (comb p s j)) :
    (d.turn n n2 s (comb p s j)).take = (d.turn n n2 s (comb p s j)).alloc.map Prod.snd ∧
      (∀ x ∈ (d.turn n n2 s (comb p s j)).alloc, m.free x.2 = true) ∧
      ((d.turn n n2 s (comb p s j)).alloc.map Prod.snd).Nodup ∧
      Hw.renames m.rat (d.turn n n2 s (comb p s j)).alloc =
        d.inflight (newEntries s j (comb p s j)) := by
  have hturn := alloc_turn (p := p) (i := j) hok hf
  cases hturn with
  | none ha h2 hnew => simp [Kind.turn, ha, h2, hnew, Hw.renames, Kind.inflight]
  | one u us hdq ha h2 hnew =>
    have htakes := hd.takes u.toUopFields u.ok
    rw [hnew]
    cases hu : d.dst u.toUopFields with
    | none =>
      simp [Kind.turn, ha, h2, hdq, hu, htakes, Hw.renames, Kind.inflight, Kind.rename, Entry.alloc]
    | some a =>
      obtain ⟨hn, hpdst, hold⟩ := hsup.first u us a hdq ha hu
      simp [Kind.turn, ha, h2, hdq, hu, htakes, Hw.renames, Kind.inflight, Kind.rename, Entry.alloc,
        hn, hpdst, hold]
  | two u v us hdq ha h2 hnew =>
    obtain ⟨hhilo, hfcr⟩ := hsup.plain u v us hdq h2
    have htakes := hd.takes u.toUopFields u.ok
    have htakes2 := hd.takesTwo v.toUopFields v.ok
    have hplain := hd.plain v.toUopFields hhilo hfcr
    rw [hplain] at htakes2
    rw [hnew]
    cases hu : d.dst u.toUopFields with
    | none =>
      cases hv : d.dst v.toUopFields with
      | none =>
        simp [Kind.turn, ha, h2, hdq, hu, hv, htakes, htakes2, hplain, Hw.renames, Kind.inflight,
          Kind.rename, Entry.alloc]
      | some b =>
        obtain ⟨hn, hpdst, -, hold⟩ := hsup.second u v us b hdq h2 hv
        rw [hu] at hold
        simp [Kind.turn, ha, h2, hdq, hu, hv, htakes, htakes2, hplain, Hw.renames, Kind.inflight,
          Kind.rename, Entry.alloc, hn, hpdst, hold]
    | some a =>
      obtain ⟨hn, hpdst, hold⟩ := hsup.first u (v :: us) a hdq ha hu
      cases hv : d.dst v.toUopFields with
      | none =>
        simp [Kind.turn, ha, h2, hdq, hu, hv, htakes, htakes2, hplain, Hw.renames, Kind.inflight,
          Kind.rename, Entry.alloc, hn, hpdst, hold]
      | some b =>
        obtain ⟨hn2, hpdst2, hne, hold2⟩ := hsup.second u v us b hdq h2 hv
        have hne := hne (by simp [hu])
        rw [hu] at hold2
        simp [Kind.turn, ha, h2, hdq, hu, hv, htakes, htakes2, hplain, Hw.renames, Kind.inflight,
          Kind.rename, Entry.alloc, hn, hpdst, hold, hn2, hpdst2, hne, hold2]

variable [DecidableEq P]

/-- A cycle that does not copy the maps renames and then retires. -/
theorem tickMaps_eq {m : Maps A P} {t : RenameTurn A P} (ht : t.take = t.alloc.map Prod.snd) :
    tickMaps m t false = (m.allocs t.alloc).retires t.retire := by
  have hallocs (l : List (A × P)) (m : Maps A P) :
      m.allocs l =
        { m with
          rat := l.foldl (fun f x => Function.update f x.1 x.2) m.rat
          free := (l.map Prod.snd).foldl (fun f n => Function.update f n false) m.free } := by
    induction l generalizing m with
    | nil => rfl
    | cons x l ih => exact ih (m.alloc x.1 x.2)
  have hretires (l : List (Rename A P)) (m : Maps A P) :
      m.retires l =
        { m with
          retireRat := l.foldl (fun f x => Function.update f x.reg x.new) m.retireRat
          retireFree :=
            l.foldl (fun f x => Function.update (Function.update f x.new false) x.old true)
              m.retireFree
          free := l.foldl (fun f x => Function.update f x.old true) m.free } := by
    induction l generalizing m with
    | nil => rfl
    | cons x l ih => exact ih (m.retire x)
  rw [hretires, hallocs, ← ht]
  rfl

/-- A cycle that does not copy the maps keeps the law of ownership. -/
theorem owned_turn {q : List Entry} (hd : d.Ok) (hok : RobOk s) (hf : Fits s)
    (hsup : d.Supplied m n n2 s j (comb p s j))
    (hq : q ≠ [] → s.regs.state ≠ .active ∧ s.regs.state ≠ .drain)
    (h : Owned m (d.inflight (q ++ s.rob))) :
    Owned (tickMaps m (d.turn n n2 s (comb p s j)) false)
      (d.inflight ((q ++ if (comb p s j).retire then [] else s.rob.take (leaving (comb p s j))) ++
        ((progress s j).drop (leaving (comb p s j)) ++ newEntries s j (comb p s j)))) := by
  obtain ⟨htake, hfree, hnodup, hnew⟩ := turn_alloc hd hok hf hsup
  rw [tickMaps_eq htake]
  have halloc := h.allocs hfree hnodup
  rw [hnew] at halloc
  refine Owned.retires ?_
  obtain ⟨hr, hret⟩ | ⟨hr, hs, hret⟩ := turn_retire (p := p) (j := j) n n2 hd hok hf
  · rw [hret, hr, if_neg Bool.false_ne_true, List.nil_append]
    rw [inflight_append, inflight_append, inflight_append, inflight_progress,
      ← List.append_assoc, List.append_assoc (d.inflight q), ← inflight_append,
      List.take_append_drop, ← inflight_append]
    exact halloc
  · -- nothing was dropped, so the oldest renames are those at the head
    have hnil : q = [] := by
      by_contra hne
      obtain ⟨hna, hnd⟩ := hq hne
      exact hs.elim hna hnd
    subst hnil
    rw [hr, if_pos rfl, List.nil_append, List.nil_append, inflight_append, inflight_progress,
      ← List.append_assoc, ← hret]
    exact halloc

end Step

/-! ## What the free lists offer -/

section Offer

variable {r : RenameRegs} {u v : UopFields}

theorem lowest_spec {n : Nat} {free : Fin n → Bool} {x : Fin n} (h : lowest free = some x) :
    free x = true := List.find?_some h

theorem gprFfs_spec {even : Bool} {n : Fin 128} (h : gprFfs r u even = some n) :
    r.gpr.free n = true ∧ (64 ≤ n.val ↔ u.isMem = true) ∧ (n.val % 2 = 0 ↔ even = true) := by
  have h := lowest_spec h
  simp only [Bool.and_eq_true, beq_iff_eq] at h
  obtain ⟨⟨hfree, hhalf⟩, hpar⟩ := h
  exact ⟨hfree, by rw [← hhalf, decide_eq_true_iff], by rw [← hpar, decide_eq_true_iff]⟩

theorem fpFfs_spec {b : Bool} {n : Fin 128} (h : fpFfs r b = some n) :
    r.fp.free n = true ∧ (64 ≤ n.val ↔ b = true) := by
  have h := lowest_spec h
  simp only [Bool.and_eq_true, beq_iff_eq] at h
  exact ⟨h.1, by rw [← h.2, decide_eq_true_iff]⟩

theorem some_of_not_none {α : Type} {b : Bool} {o : Option α} (h : (!(b && o.isNone)) = true)
    (hb : b = true) : ∃ x, o = some x := by
  cases o with
  | none => simp [hb] at h
  | some x => exact ⟨x, rfl⟩

/-- When there is enough for the first slot, its pool has a register. -/
theorem enough_spec (h : enough r u = true) :
    (u.dstValid = true → ∃ n, gprFfs r u r.bankSel = some n) ∧
      (u.hiloDstValid = true → ∃ n, lowest r.hilo.free = some n) ∧
      (u.fpDstValid = true → ∃ n, fpFfs r u.isMem = some n) ∧
      (u.fcrDstValid = true → ∃ n, lowest r.fcr.free = some n) := by
  simp only [enough, Bool.and_eq_true] at h
  obtain ⟨⟨⟨hgpr, hhilo⟩, hfp⟩, hfcr⟩ := h
  exact ⟨some_of_not_none hgpr, some_of_not_none hhilo, some_of_not_none hfp,
    some_of_not_none hfcr⟩

theorem enoughNext_spec (h : enoughNext r u v = true) :
    (v.dstValid = true → ∃ n, gprFfs r v (!r.bankSel) = some n) ∧
      (v.fpDstValid = true → u.fpDstValid = false ∧ ∃ n, fpFfs r v.isMem = some n) ∧
      v.hiloDstValid = false ∧ v.fcrDstValid = false := by
  simp only [enoughNext, Bool.and_eq_true] at h
  obtain ⟨⟨⟨hgpr, hhilo⟩, hfp⟩, hfcr⟩ := h
  refine ⟨some_of_not_none hgpr, fun hv => ?_, by simpa using hhilo, by simpa using hfcr⟩
  rw [hv, Bool.true_and, Bool.not_eq_true', Bool.or_eq_false_iff] at hfp
  exact ⟨hfp.2, some_of_not_none (b := true) (by simp [hfp.1]) rfl⟩

theorem nPrf_spec (h : enough r u = true) (hu : u.dstValid = true) :
    r.gpr.free (nPrf r u) = true ∧ (64 ≤ (nPrf r u).val ↔ u.isMem = true) ∧
      ((nPrf r u).val % 2 = 0 ↔ r.bankSel = true) := by
  obtain ⟨n, hn⟩ := (enough_spec h).1 hu
  rw [nPrf, hn, Option.getD_some]
  exact gprFfs_spec hn

theorem nPrf2_spec (h : enoughNext r u v = true) (hv : v.dstValid = true) :
    r.gpr.free (nPrf2 r v) = true ∧ (64 ≤ (nPrf2 r v).val ↔ v.isMem = true) ∧
      ((nPrf2 r v).val % 2 = 0 ↔ r.bankSel = false) := by
  obtain ⟨n, hn⟩ := (enoughNext_spec h).1 hv
  rw [nPrf2, hn, Option.getD_some]
  obtain ⟨hfree, hhalf, hpar⟩ := gprFfs_spec hn
  exact ⟨hfree, hhalf, hpar.trans (Bool.not_eq_true' _).to_iff⟩

/-- The two destinations of a dual allocation differ in parity. -/
theorem nPrf_ne (h : enough r u = true) (h2 : enoughNext r u v = true) (hu : u.dstValid = true)
    (hv : v.dstValid = true) : nPrf r u ≠ nPrf2 r v := by
  intro heq
  have h1 := (nPrf_spec h hu).2.2
  have h2 := (nPrf2_spec h2 hv).2.2
  rw [heq] at h1
  cases hb : r.bankSel <;> simp_all

theorem nHilo_spec (h : enough r u = true) (hu : u.hiloDstValid = true) :
    r.hilo.free (nHilo r) = true := by
  obtain ⟨n, hn⟩ := (enough_spec h).2.1 hu
  rw [nHilo, hn, Option.getD_some]
  exact lowest_spec hn

theorem nFcr_spec (h : enough r u = true) (hu : u.fcrDstValid = true) :
    r.fcr.free (nFcr r) = true := by
  obtain ⟨n, hn⟩ := (enough_spec h).2.2.2 hu
  rw [nFcr, hn, Option.getD_some]
  exact lowest_spec hn

variable {c : Comb}

theorem nFp_spec (h : enough r u = true) (ha : c.alloc = true) (hu : u.fpDstValid = true) :
    r.fp.free (nFp r u v c) = true ∧ (64 ≤ (nFp r u v c).val ↔ u.isMem = true) := by
  obtain ⟨n, hn⟩ := (enough_spec h).2.2.1 hu
  have hpick : nFp r u v c = n := by simp [nFp, ha, hu, hn]
  rw [hpick]
  exact fpFfs_spec hn

theorem nFp_spec2 (h : enoughNext r u v = true) (h2 : c.allocTwo = true)
    (hv : v.fpDstValid = true) :
    r.fp.free (nFp r u v c) = true ∧ (64 ≤ (nFp r u v c).val ↔ v.isMem = true) := by
  obtain ⟨hu, n, hn⟩ := (enoughNext_spec h).2.1 hv
  have hpick : nFp r u v c = n := by simp [nFp, h2, hu, hv, hn]
  rw [hpick]
  exact fpFfs_spec hn

/-- Destination fields that differ name registers that differ. -/
theorem areg_inj {a b : Nat} (ha : a < 32) (hb : b < 32) (h : areg a = areg b) : a = b := by
  have h := congrArg Fin.val h
  simp only [areg, Fin.val_ofNat, Nat.mod_eq_of_lt ha, Nat.mod_eq_of_lt hb] at h
  exact h

end Offer

section Supply

variable {p : Params} {s : RenameState} {i : Input}

theorem comb_withTags : comb p s.core (withTags p s i) = renameComb p s i := rfl

theorem t_uop_cons {u : Uop} {us : List Uop} (h : s.core.dq = u :: us) :
    t_uop s = u.toUopFields := by simp [t_uop, opAt, h]

theorem t_uop2_cons {u v : Uop} {us : List Uop} (h : s.core.dq = u :: v :: us) :
    t_uop2 s = v.toUopFields := by simp [t_uop2, opAt, h]

/-- The core allocates only when there is enough. -/
theorem alloc_enough (hsane : Sane s.core) (ha : (renameComb p s i).alloc = true) :
    enough s.regs (t_uop s) = true := by
  have hturn := alloc_turn (p := p) (i := withTags p s i) hsane.rob hsane.fits
  rw [comb_withTags] at hturn
  cases hturn with
  | none h => rw [h] at ha; cases ha
  | one u us hdq _ _ _ _ henough => exact henough
  | two u v us hdq _ _ _ _ henough => exact henough

theorem allocTwo_enough (hsane : Sane s.core) (h2 : (renameComb p s i).allocTwo = true) :
    (renameComb p s i).alloc = true ∧ enoughNext s.regs (t_uop s) (t_uop2 s) = true := by
  have hturn := alloc_turn (p := p) (i := withTags p s i) hsane.rob hsane.fits
  rw [comb_withTags] at hturn
  cases hturn with
  | none _ h => rw [h] at h2; cases h2
  | one u us _ _ h => rw [h] at h2; cases h2
  | two u v us hdq ha _ _ _ _ henough => exact ⟨ha, henough⟩

theorem second_plain (hsane : Sane s.core) (u v : Uop) (us : List Uop)
    (hdq : s.core.dq = u :: v :: us) (h2 : (renameComb p s i).allocTwo = true) :
    v.hiloDstValid = false ∧ v.fcrDstValid = false := by
  have h := (enoughNext_spec (allocTwo_enough hsane h2).2).2.2
  rwa [t_uop2_cons hdq] at h

theorem gpr_supplied (hsane : Sane s.core) :
    gprKind.Supplied s.regs.gpr (nPrf s.regs (t_uop s)) (nPrf2 s.regs (t_uop2 s)) s.core
      (withTags p s i) (comb p s.core (withTags p s i)) where
  plain := second_plain hsane
  first u us a hdq ha hu := by
    have henough := alloc_enough hsane ha
    rw [t_uop_cons hdq] at henough
    have hv : u.dstValid = true := by
      by_contra h
      simp [gprKind, h] at hu
    obtain rfl : areg u.dst = a := by simpa [gprKind, hv] using hu
    rw [t_uop_cons hdq]
    refine ⟨(nPrf_spec henough hv).1, ?_, ?_⟩
    · simp [withTags, tailTag, t_uop_cons hdq, hv, gprKind]
    · simp [withTags, tailTag, t_uop_cons hdq, hv, gprKind]
  second u v us b hdq h2 hvb := by
    obtain ⟨ha, hnext⟩ := allocTwo_enough hsane h2
    have henough := alloc_enough hsane ha
    rw [t_uop_cons hdq] at henough
    rw [t_uop_cons hdq, t_uop2_cons hdq] at hnext
    have hv : v.dstValid = true := by
      by_contra h
      simp [gprKind, h] at hvb
    obtain rfl : areg v.dst = b := by simpa [gprKind, hv] using hvb
    rw [t_uop_cons hdq, t_uop2_cons hdq]
    refine ⟨(nPrf2_spec hnext hv).1, ?_, fun hu => ?_, ?_⟩
    · simp [withTags, nextTailTag, t_uop_cons hdq, t_uop2_cons hdq, hv, gprKind]
    · have hu : u.dstValid = true := by
        by_contra h
        simp [gprKind, h] at hu
      exact nPrf_ne henough hnext hu hv
    · cases hu : u.dstValid with
      | false => simp [withTags, nextTailTag, t_uop_cons hdq, t_uop2_cons hdq, hv, hu, gprKind]
      | true =>
        -- the second slot takes the name of the first when they write the same register
        by_cases heq : u.dst = v.dst
        · simp [withTags, nextTailTag, tailTag, t_uop_cons hdq, t_uop2_cons hdq, hv, hu, gprKind,
            heq]
        · have hne : areg v.dst ≠ areg u.dst := fun h =>
            heq (areg_inj v.ok.reg u.ok.reg h).symm
          simp [withTags, nextTailTag, t_uop_cons hdq, t_uop2_cons hdq, hv, hu, gprKind, heq,
            Function.update_of_ne hne]

theorem hilo_supplied (hsane : Sane s.core) :
    hiloKind.Supplied s.regs.hilo (nHilo s.regs) (nHilo s.regs) s.core (withTags p s i)
      (comb p s.core (withTags p s i)) where
  plain := second_plain hsane
  first u us a hdq ha hu := by
    have henough := alloc_enough hsane ha
    rw [t_uop_cons hdq] at henough
    have hv : u.dstValid = false ∧ u.hiloDstValid = true := by
      cases h1 : u.dstValid <;> cases h2 : u.hiloDstValid <;> simp [hiloKind, h1, h2] at hu ⊢
    refine ⟨nHilo_spec henough hv.2, ?_, ?_⟩
    · simp [withTags, tailTag, t_uop_cons hdq, hv.1, hv.2, hiloKind]
    · simp [withTags, tailTag, t_uop_cons hdq, hv.1, hv.2, hiloKind, Subsingleton.elim a 0]
  second u v us b hdq h2 hvb := by
    have h := (second_plain hsane u v us hdq h2).1
    simp [hiloKind, h] at hvb

theorem fcr_supplied (hsane : Sane s.core) :
    fcrKind.Supplied s.regs.fcr (nFcr s.regs) (nFcr s.regs) s.core (withTags p s i)
      (comb p s.core (withTags p s i)) where
  plain := second_plain hsane
  first u us a hdq ha hu := by
    have henough := alloc_enough hsane ha
    rw [t_uop_cons hdq] at henough
    have hv : u.dstValid = false ∧ u.hiloDstValid = false ∧ u.fcrDstValid = true := by
      cases h1 : u.dstValid <;> cases h2 : u.hiloDstValid <;> cases h3 : u.fcrDstValid <;>
        simp [fcrKind, h1, h2, h3] at hu ⊢
    refine ⟨nFcr_spec henough hv.2.2, ?_, ?_⟩
    · simp [withTags, tailTag, t_uop_cons hdq, hv.1, hv.2.1, hv.2.2, fcrKind]
    · simp [withTags, tailTag, t_uop_cons hdq, hv.1, hv.2.1, hv.2.2, fcrKind,
        Subsingleton.elim a 0]
  second u v us b hdq h2 hvb := by
    have h := (second_plain hsane u v us hdq h2).2
    simp [fcrKind, h] at hvb

/-- A destination of the FP kind. -/
theorem fpKind_dst {u : UopFields} {a : Fin 32} (h : fpKind.dst u = some a) :
    u.dstValid = false ∧ u.hiloDstValid = false ∧ u.fcrDstValid = false ∧ u.fpDstValid = true ∧
      a = areg u.dst := by
  cases h1 : u.dstValid <;> cases h2 : u.hiloDstValid <;> cases h3 : u.fcrDstValid <;>
    cases h4 : u.fpDstValid <;> simp [fpKind, h1, h2, h3, h4] at h ⊢
  exact h.symm

theorem fp_supplied (hsane : Sane s.core) :
    fpKind.Supplied s.regs.fp (nFp s.regs (t_uop s) (t_uop2 s) (renameComb p s i))
      (nFp s.regs (t_uop s) (t_uop2 s) (renameComb p s i)) s.core (withTags p s i)
      (comb p s.core (withTags p s i)) where
  plain := second_plain hsane
  first u us a hdq ha hu := by
    have henough := alloc_enough hsane ha
    rw [t_uop_cons hdq] at henough ⊢
    obtain ⟨h1, h2, h3, h4, rfl⟩ := fpKind_dst hu
    refine ⟨(nFp_spec henough ha h4).1, ?_, ?_⟩
    · simp [withTags, tailTag, t_uop_cons hdq, h1, h2, h3, h4, fpKind]
    · simp [withTags, tailTag, t_uop_cons hdq, h1, h2, h3, h4, fpKind]
  second u v us b hdq h2 hvb := by
    obtain ⟨-, hnext⟩ := allocTwo_enough hsane h2
    rw [t_uop_cons hdq, t_uop2_cons hdq] at hnext ⊢
    obtain ⟨h1, -, -, h4, rfl⟩ := fpKind_dst hvb
    -- the first slot has no FP destination, since both would share one register
    have hu := ((enoughNext_spec hnext).2.1 h4).1
    have hnone : fpKind.dst u.toUopFields = none := by
      cases h : fpKind.dst u.toUopFields with
      | none => rfl
      | some a =>
        have := (fpKind_dst h).2.2.2.1
        rw [hu] at this
        cases this
    refine ⟨(nFp_spec2 hnext h2 h4).1, ?_, fun h => (h hnone).elim, ?_⟩
    · simp [withTags, nextTailTag, t_uop_cons hdq, t_uop2_cons hdq, h1, h4, fpKind]
    · rw [hnone]
      simp [withTags, nextTailTag, t_uop_cons hdq, t_uop2_cons hdq, h1, h4, hu, fpKind]

end Supply

/-- The maps are copied exactly when the reorder buffer is cleared. -/
theorem ratCopy_eq (p : Params) (s : State) (i : Input) :
    (comb p s i).ratCopy = (comb p s i).clrRob := by
  have hal : (allocate p s i (tick s i)).ratCopy = (allocate p s i (tick s i)).clrRob := by
    obtain ⟨-, he⟩ | ⟨-, -, he⟩ | ⟨-, he⟩ :=
      allocate_cases (p := p) (s := s) (i := i) (tick s i) <;> simp [he]
  have hacc (e : Entry) (es : List Entry) (c : Comb) (hc : c.ratCopy = c.clrRob) :
      (accumulate e es c).ratCopy = (accumulate e es c).clrRob := by
    obtain ⟨w, a, f, he⟩ := accumulate_frame e es c
    rw [he]
    exact hc
  change (arm p s i (tick s i)).ratCopy = (arm p s i (tick s i)).clrRob
  unfold arm
  split
  · unfold active
    split
    · rfl
    split
    · split
      · rfl
      · refine hacc _ _ _ ?_
        split
        · unfold faultedHead
          dsimp only
          split <;> rfl
        · exact hal
    · exact hal
  · unfold drain drainHead drainSlot
    dsimp only
    split <;> split <;> (repeat' split) <;> rfl
  · unfold exceptionDrain
    split <;> rfl
  · unfold rat
    dsimp only
    split <;> rfl
  · unfold allocAlone
    split <;> rfl
  · unfold waitForSerialize restartAfter requestFlush
    dsimp only
    repeat' split
    all_goals rfl
  · unfold cacheFlush restartAfter
    dsimp only
    repeat' split
    all_goals rfl
  · unfold flushForHalt
    split <;> rfl
  · unfold halt
    split <;> rfl
  · unfold haltWaitForRestart
    dsimp only
    split <;> rfl
  · unfold archFault
    dsimp only
    repeat' split
    all_goals rfl
  · rfl
  · unfold allocAlone
    split <;> rfl
  · unfold waitInSlot
    repeat' split
    all_goals rfl
  · rfl

end Core

end R9999
