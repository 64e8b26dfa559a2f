import R9999.Iss.Integer
import R9999.Iss.Translate

/-!
# Loads, stores and the LL/SC link

Every access goes through `va_translate` with the lookup in the TLB, which is the same as
with the micro-TLB in front of it.  Memory is big-endian.
-/

namespace R9999

namespace Iss

/-- `va_translate`, as the instructions call it. -/
def translate (s : State) (va : BitVec 64) (op : TlbOp) : BitVec 32 × State :=
  let r := vaTranslate true coldUtlb s va op
  (r.1, r.2.1)

/-- The bytes of memory. -/
abbrev Memory := BitVec 32 → BitVec 8

/-- The `n` bytes at an address, the first the most significant. -/
def Memory.read (m : Memory) (ea : BitVec 32) : (n : Nat) → BitVec (8 * n)
  | 0 => 0
  | n + 1 => m.read ea n ++ m (ea + BitVec.ofNat 32 n)

/-- The write of the `n` bytes of a value. -/
def Memory.write (m : Memory) (ea : BitVec 32) {n : Nat} (v : BitVec (8 * n)) : Memory :=
  fun a =>
    let k := (a - ea).toNat
    if k < n then v.extractLsb' (8 * (n - 1 - k)) 8 else m a

/-- `tlb_probe_ro`: the physical address of a mapping, raising nothing. -/
def tlbProbeRo (s : State) (va : BitVec 64) (forStore : Bool) : Option (BitVec 32) :=
  match unmapped va with
  | some pa => some pa
  | none =>
    let hi32 : BitVec 32 := (va >>> 32).setWidth 32
    let wide := !(hi32 == 0 || hi32 == 0xffffffff)
    let curAsid := s.cpr0_64 Cpr0.entryHi &&& 0xff
    let cmpMask : BitVec 64 := if wide then ~~~0x3 else 0xffffffff
    let hits (e : TlbEntry) : Bool :=
      let mask := ~~~(e.pm ||| 0x1fff) &&& cmpMask
      (va &&& mask) == (e.entryHi &&& mask)
        && (!wide || ((va >>> 62) &&& 0x3) == ((e.entryHi >>> 62) &&& 0x3))
        && (e.isGlobal || curAsid == (e.entryHi &&& 0xff))
    match ((List.finRange numTlbEntries).map s.tlb).find? hits with
    | none => none
    | some e =>
      let eLo := e.lo va
      if eLo.getLsbD 1 = false then none
      else if forStore ∧ eLo.getLsbD 2 = false then none
      else some ((e.pa va).setWidth 32)

/-- `va2pa`. -/
def va2pa (va : BitVec 32) : BitVec 32 := if va.msb then va &&& 0x1fffffff else va

/-- The line that the link compares, of an access whose translation may fail. -/
def linkLine (s : State) (va : BitVec 64) : BitVec 64 :=
  ((tlbProbeRo s va false).getD (va2pa (lo32 va))).setWidth 64 &&& ~~~0xf

/-- A store to the linked line breaks the link. -/
def breakLink (i : Word) (s : State) : State :=
  if isMemStore i ∧ s.llLinkValid ∧ linkLine s (s.gpr i.rs + i.simm) = s.llLinkAddr then
    { s with llLinkValid := false }
  else s

/-- The translation that every load and store begins with. -/
def access (i : Word) (op : TlbOp) (s : State) (k : BitVec 32 → State → Effect) : Effect :=
  let r := translate s (s.gpr i.rs + i.simm) op
  if r.2.tlbFault then .fault r.2 else k r.1 r.2

/-- A load of `n` bytes into `rt`; the address bits `align` have to be clear. -/
def load (i : Word) (n : Nat) (align : BitVec 32) (ext : BitVec (8 * n) → BitVec 64)
    (s : State) : Effect :=
  access i .load s fun ea s =>
    if ea &&& align ≠ 0 then .fault (raiseAdel s)
    else write s i.rt (ext (Memory.read s.mem ea n))

/-- A store of the low `n` bytes of `rt`. -/
def store (i : Word) (n : Nat) (align : BitVec 32) (s : State) : Effect :=
  access i .store s fun ea s =>
    if ea &&& align ≠ 0 then .fault (raiseAdes s)
    else .next { s with mem := Memory.write s.mem ea ((s.gpr i.rt).setWidth (8 * n)) }

/-- LWL and LDL: the bytes of the word from the addressed one on, put at the top. -/
def loadLeft (i : Word) (n : Nat) (ext : BitVec (8 * n) → BitVec 64) (s : State) : Effect :=
  access i .load s fun ea s =>
    let ma := ea.toNat % n
    let r := Memory.read s.mem (ea - BitVec.ofNat 32 ma) n
    let x := (s.gpr i.rt).setWidth (8 * n)
    write s i.rt (ext ((r <<< (8 * ma)) ||| (x &&& BitVec.ofNat _ (2 ^ (8 * ma) - 1))))

/-- LWR and LDR: the bytes of the word up to the addressed one, put at the bottom. -/
def loadRight (i : Word) (n : Nat) (ext : BitVec (8 * n) → BitVec 64) (s : State) : Effect :=
  access i .load s fun ea s =>
    let ma := ea.toNat % n
    let r := Memory.read s.mem (ea - BitVec.ofNat 32 ma) n
    let x := (s.gpr i.rt).setWidth (8 * n)
    write s i.rt
      (ext ((x &&& ~~~BitVec.ofNat _ (2 ^ (8 * (ma + 1)) - 1)) ||| (r >>> (8 * (n - 1 - ma)))))

/-- SWL and SDL. -/
def storeLeft (i : Word) (n : Nat) (s : State) : Effect :=
  access i .store s fun ea s =>
    let ma := ea.toNat % n
    let base := ea - BitVec.ofNat 32 ma
    let r := Memory.read s.mem base n
    let x := (s.gpr i.rt).setWidth (8 * n)
    let v := (r &&& ~~~BitVec.ofNat _ (2 ^ (8 * (n - ma)) - 1)) ||| (x >>> (8 * ma))
    .next { s with mem := Memory.write s.mem base v }

/-- SWR and SDR. -/
def storeRight (i : Word) (n : Nat) (s : State) : Effect :=
  access i .store s fun ea s =>
    let ma := ea.toNat % n
    let base := ea - BitVec.ofNat 32 ma
    let r := Memory.read s.mem base n
    let x := (s.gpr i.rt).setWidth (8 * n)
    let xs := 8 * (n - 1 - ma)
    let v := (x <<< xs) ||| (BitVec.ofNat _ (2 ^ xs - 1) &&& r)
    .next { s with mem := Memory.write s.mem base v }

/-- LL and LLD set the link before they load. -/
def loadLinked (i : Word) (s : State) : State :=
  { s with llLinkValid := true, llLinkAddr := linkLine s (s.gpr i.rs + i.simm) }

/-- SC and SCD: SC does not check the alignment. -/
def storeCond (i : Word) (n : Nat) (align : BitVec 32) (s : State) : Effect :=
  access i .store s fun ea s =>
    if ea &&& align ≠ 0 then .fault (raiseAdes s)
    else
      let ok := s.llLinkValid && s.llLinkAddr == (ea.setWidth 64 &&& ~~~0xf)
      let s := if ok then
          { s with mem := Memory.write s.mem ea ((s.gpr i.rt).setWidth (8 * n)) }
        else s
      write { s with llLinkValid := false } i.rt (flag ok)

/-- The loads and stores of the general registers, and the integer instructions. -/
def memory (i : Word) (insn : Insn) (s : State) : Effect :=
  match insn with
  | .lb => load i 1 0 (·.signExtend 64) s
  | .lbu => load i 1 0 (·.setWidth 64) s
  | .lh => load i 2 1 (·.signExtend 64) s
  | .lhu => load i 2 1 (·.setWidth 64) s
  | .lw => load i 4 3 (·.signExtend 64) s
  | .lwu => load i 4 3 (·.setWidth 64) s
  | .ld => load i 8 7 id s
  | .ll => load i 4 3 (·.signExtend 64) (loadLinked i s)
  | .lld => load i 8 7 id (loadLinked i s)
  | .lwl => loadLeft i 4 (·.signExtend 64) s
  | .lwr => loadRight i 4 (·.signExtend 64) s
  | .ldl => loadLeft i 8 id s
  | .ldr => loadRight i 8 id s
  | .sb => store i 1 0 s
  | .sh => store i 2 1 s
  | .sw => store i 4 3 s
  | .sd => store i 8 7 s
  | .swl => storeLeft i 4 s
  | .swr => storeRight i 4 s
  | .sdl => storeLeft i 8 s
  | .sdr => storeRight i 8 s
  | .sc => storeCond i 4 0 s
  | .scd => storeCond i 8 7 s
  -- of the cache instructions, the ones that hit translate their address
  | .cache => if 0x10 ≤ i.rt then access i .load s fun _ s => .next s else .next s
  | .pref => .next s
  | _ => immediate i insn s

end Iss

end R9999
