import CyPhOS.Lib.BitField
import Mathlib.Data.Nat.Log
import Mathlib.Tactic.IntervalCases

/-! # Cache maintenance by set and way

The three routines are one program with different operations. It goes through the levels below the
level of coherency, and counts the ways and the sets of each down. What it puts into the register of
the operation are the fields of the architecture as long as these fit the word
(`maintain_every_line`); the program does not check that.
-/

namespace CyPhOS

/-- What the processor says about its caches. The register with the geometry shows the cache that
CSSELR selects. -/
structure CacheSystem where
  CLIDR : BitVec 32
  CCSIDR : BitVec 32 → BitVec 32

namespace ARMV7CacheControl

inductive Operation
  | DCCISW
  | DCISW
  | DCCSW
  deriving DecidableEq

inductive Action
  | DSB
  | ISB
  | CSSELR (r10 : BitVec 32)
  | maintain (op : Operation) (r11 : BitVec 32)

/-! ## The program

The registers have the names of the source. After `SUBS a, b` and `CMP a, b` the condition GE is
`b.sle a`, GT is `b.slt a` and LT is `a.slt b`. -/

/-- A shift by a register takes the amount from its lowest byte. -/
def lsl (r amount : BitVec 32) : BitVec 32 := r <<< (amount.setWidth 8).toNat

def lsr (r amount : BitVec 32) : BitVec 32 := r >>> (amount.setWidth 8).toNat

/-- A loop that ends with `SUBS r, r, #1` and `BGE`. -/
def countDown {α : Type} (body : BitVec 32 → List α) (r : BitVec 32) : List α :=
  body r ++ if (1#32).sle r then countDown body (r - 1) else []
termination_by r.toNat
decreasing_by
  rename_i hge
  have hne : r ≠ 0 := by
    rintro rfl
    exact absurd hge (by decide)
  bv_omega

/-- The loop from label 3 on. -/
def setLoop (op : Operation) (r10 r9 r5 r2 : BitVec 32) : BitVec 32 → List Action :=
  countDown fun r7 =>
    let r11 := r10 ||| lsl r9 r5
    let r11 := r11 ||| lsl r7 r2
    [.maintain op r11]

/-- The loop from label 2 on. -/
def wayLoop (op : Operation) (r10 r1 r5 r2 : BitVec 32) : BitVec 32 → List Action :=
  countDown fun r9 =>
    let r7 := 0x7FFF#32 &&& r1 >>> 13
    setLoop op r10 r9 r5 r2 r7

/-- One level, up to label 4. -/
def maintainLevel (op : Operation) (sys : CacheSystem) (r0 r10 : BitVec 32) : List Action :=
  let r2 := r10 + r10 >>> 1
  let r1 := lsr r0 r2
  let r1 := r1 &&& 7
  if r1.slt 2 then []
  else
    let r1 := sys.CCSIDR r10
    let r2 := r1 &&& 7
    let r2 := r2 + 4
    let r4 := 0x3FF#32 &&& r1 >>> 3
    let r5 := r4.clz
    let r9 := r4
    [.CSSELR r10, .ISB] ++ wayLoop op r10 r1 r5 r2 r9

/-- The loop from label 1 on, in a number of rounds. -/
def levelLoop (op : Operation) (sys : CacheSystem) (r0 r3 : BitVec 32) :
    Nat → BitVec 32 → Option (List Action)
  | 0, _ => none
  | rounds + 1, r10 =>
    let actions := maintainLevel op sys r0 r10
    let r10 := r10 + 2
    if r10.slt r3 then (levelLoop op sys r0 r3 rounds r10).map (actions ++ ·) else some actions

def maintainDataCaches (op : Operation) (sys : CacheSystem) (rounds : Nat) :
    Option (List Action) :=
  let r0 := sys.CLIDR
  let r3 := r0 &&& 0x07000000#32
  if r3 = 0 then some [.DSB]
  else
    let r3 := r3 >>> 23
    (levelLoop op sys r0 r3 rounds 0).map fun actions => .DSB :: actions ++ [.DSB, .ISB]

def asm_clean_and_invalidate_data_caches : CacheSystem → Nat → Option (List Action) :=
  maintainDataCaches .DCCISW

def asm_invalidate_data_caches : CacheSystem → Nat → Option (List Action) :=
  maintainDataCaches .DCISW

def asm_clean_data_caches : CacheSystem → Nat → Option (List Action) :=
  maintainDataCaches .DCCSW

def Operation.routine : Operation → CacheSystem → Nat → Option (List Action)
  | DCCISW => asm_clean_and_invalidate_data_caches
  | DCISW => asm_invalidate_data_caches
  | DCCSW => asm_clean_data_caches

/-! ## The architecture -/

end ARMV7CacheControl

/-- The geometry of a cache: the binary logarithm of the length of a line in bytes, and the numbers
of ways and sets. -/
structure CacheGeometry where
  lineShift : Nat
  ways : Nat
  sets : Nat

/-- A line of the caches. -/
structure CacheLine where
  level : Nat
  way : Nat
  set : Nat
  deriving DecidableEq

namespace CacheGeometry

def ofCCSIDR (r : BitVec 32) : CacheGeometry where
  lineShift := (BitField.get 0 3 r).toNat + 4
  ways := (BitField.get 3 10 r).toNat + 1
  sets := (BitField.get 13 15 r).toNat + 1

variable (g : CacheGeometry)

def setBits : Nat := Nat.clog 2 g.sets

def wayBits : Nat := Nat.clog 2 g.ways

/-- The bits of the set end below those of the way. -/
def Fits : Prop := g.lineShift + g.setBits + g.wayBits ≤ 32

instance : Decidable g.Fits := inferInstanceAs (Decidable (_ ≤ _))

/-- The operand of a maintenance operation: the way in the uppermost bits, the set from the bits on
that number the bytes of a line, and the level in bits 1 to 3. -/
def operand (l : CacheLine) : BitVec 32 :=
  BitField.set (32 - g.wayBits) (BitVec.ofNat g.wayBits l.way)
    (BitField.set g.lineShift (BitVec.ofNat g.setBits l.set)
      (BitField.set 1 (BitVec.ofNat 3 l.level) 0#32))

/-- The fields of the word are those of the line, and share no bit. -/
structure Encodes (x : BitVec 32) (l : CacheLine) : Prop where
  level : (BitField.get 1 3 x).toNat = l.level
  set : (BitField.get g.lineShift g.setBits x).toNat = l.set
  way : (BitField.get (32 - g.wayBits) g.wayBits x).toNat = l.way
  above : 4 ≤ g.lineShift
  below : g.lineShift + g.setBits ≤ 32 - g.wayBits

end CacheGeometry

namespace CacheSystem

variable (sys : CacheSystem)

/-- The level of coherency. -/
def LoC : Nat := (BitField.get 24 3 sys.CLIDR).toNat

/-- The type of a cache: 0 for none, 1 for instructions only, from 2 on with data. -/
def Ctype (level : Nat) : Nat := (BitField.get (3 * level) 3 sys.CLIDR).toNat

def geometry (level : Nat) : CacheGeometry :=
  .ofCCSIDR (sys.CCSIDR (BitVec.ofNat 32 (2 * level)))

/-- A line that may hold data which is not coherent yet. -/
structure HasLine (l : CacheLine) : Prop where
  level : l.level < sys.LoC
  data : 2 ≤ sys.Ctype l.level
  way : l.way < (sys.geometry l.level).ways
  set : l.set < (sys.geometry l.level).sets

/-- All the fields of the caches with data fit. -/
def Fits : Prop := ∀ level < sys.LoC, 2 ≤ sys.Ctype level → (sys.geometry level).Fits

end CacheSystem

namespace ARMV7CacheControl

open BitField

/-! ## The loops -/

def Action.maintained : Action → Option (Operation × BitVec 32)
  | maintain op r11 => some (op, r11)
  | _ => none

/-- The operations that are issued, with their operands. -/
def maintained (actions : List Action) : List (Operation × BitVec 32) :=
  actions.filterMap Action.maintained

/-- The operand that the program computes. -/
def codeOperand (sys : CacheSystem) (l : CacheLine) : BitVec 32 :=
  let r10 := BitVec.ofNat 32 (2 * l.level)
  let r1 := sys.CCSIDR r10
  r10 ||| lsl (BitVec.ofNat 32 l.way) (0x3FF#32 &&& r1 >>> 3).clz |||
    lsl (BitVec.ofNat 32 l.set) ((r1 &&& 7) + 4)

/-- The lines of a cache in the order of the program. -/
def linesOf (level : Nat) (g : CacheGeometry) : List CacheLine :=
  (List.range g.ways).reverse.flatMap fun way =>
    (List.range g.sets).reverse.map fun set => ⟨level, way, set⟩

def levelLines (sys : CacheSystem) (level : Nat) : List CacheLine :=
  if 2 ≤ sys.Ctype level then linesOf level (sys.geometry level) else []

def lines (sys : CacheSystem) : List CacheLine := (List.range sys.LoC).flatMap (levelLines sys)

variable {α : Type} {op : Operation} {sys : CacheSystem} {level n : Nat} {l : CacheLine}
  {r r0 r10 : BitVec 32}

theorem toInt_small (hr : r.toNat < 2 ^ 31) : r.toInt = r.toNat :=
  BitVec.toInt_eq_toNat_of_lt (by omega)

/-- On small numbers the signed comparison is the usual one. -/
theorem slt_small {a b : BitVec 32} (ha : a.toNat < 2 ^ 31) (hb : b.toNat < 2 ^ 31) :
    a.slt b = true ↔ a.toNat < b.toNat := by
  rw [BitVec.slt_iff_toInt_lt, toInt_small ha, toInt_small hb, Int.ofNat_lt]

theorem sle_small {a b : BitVec 32} (ha : a.toNat < 2 ^ 31) (hb : b.toNat < 2 ^ 31) :
    a.sle b = true ↔ a.toNat ≤ b.toNat := by
  rw [BitVec.sle_iff_toInt_le, toInt_small ha, toInt_small hb, Int.ofNat_le]

theorem reverse_range_succ : (List.range (n + 1)).reverse = n :: (List.range n).reverse := by
  rw [List.range_succ, List.reverse_append]
  rfl

/-- A loop that counts down takes all the numbers from the first one to 0. -/
theorem countDown_eq {body : BitVec 32 → List α} (hr : r.toNat = n) (hn : n < 2 ^ 31) :
    countDown body r = (List.range (n + 1)).reverse.flatMap fun i => body (BitVec.ofNat 32 i) := by
  induction n generalizing r with
  | zero =>
    have hzero : r = 0 := BitVec.eq_of_toNat_eq hr
    rw [hzero, countDown, if_neg (by decide)]
    rfl
  | succ n ih =>
    have hge : (1#32).sle r = true :=
      (sle_small (by decide) (hr ▸ hn)).mpr (hr ▸ Nat.succ_le_succ (Nat.zero_le n))
    have hpred : (r - 1).toNat = n := by bv_omega
    have hr : BitVec.ofNat 32 (n + 1) = r := by bv_omega
    rw [countDown, if_pos hge, ih hpred (by omega), reverse_range_succ (n := n + 1),
      List.flatMap_cons, hr]

/-- A field is read by a shift and a mask. -/
theorem toNat_mask_shift (lo len : Nat) (hlen : len ≤ 32) :
    (BitVec.ofNat 32 (2 ^ len - 1) &&& r >>> lo).toNat = (get lo len r).toNat := by
  have hmask : (BitVec.ofNat 32 (2 ^ len - 1)).toNat = 2 ^ len - 1 := by
    have hpow := Nat.pow_le_pow_right Nat.two_pos hlen
    have hpos := Nat.two_pow_pos len
    rw [BitVec.toNat_ofNat]
    exact Nat.mod_eq_of_lt (by omega)
  rw [BitVec.toNat_and, hmask, Nat.and_comm, Nat.and_two_pow_sub_one_eq_mod,
    BitVec.toNat_ushiftRight, Nat.shiftRight_eq_div_pow, toNat_get]

theorem maintained_flatMap {f : α → List Action} {is : List α} :
    maintained (is.flatMap f) = is.flatMap fun i => maintained (f i) :=
  List.filterMap_flatMap ..

theorem maintained_append {as bs : List Action} :
    maintained (as ++ bs) = maintained as ++ maintained bs := List.filterMap_append ..

theorem toNat_maxWay : (0x3FF#32 &&& r >>> 3).toNat = (get 3 10 r).toNat :=
  toNat_mask_shift 3 10 (by decide)

theorem toNat_maxSet : (0x7FFF#32 &&& r >>> 13).toNat = (get 13 15 r).toNat :=
  toNat_mask_shift 13 15 (by decide)

/-- The ways and sets of a cache are counted down. -/
theorem maintained_wayLoop (hr10 : r10 = BitVec.ofNat 32 (2 * level)) (hr : r = sys.CCSIDR r10) :
    maintained
        (wayLoop op r10 r (0x3FF#32 &&& r >>> 3).clz ((r &&& 7) + 4) (0x3FF#32 &&& r >>> 3)) =
      (linesOf level (sys.geometry level)).map fun l => (op, codeOperand sys l) := by
  subst hr hr10
  rw [wayLoop, countDown_eq toNat_maxWay ((get 3 10 _).isLt.trans (by decide)),
    maintained_flatMap, linesOf, List.map_flatMap]
  refine List.flatMap_congr fun way _ => ?_
  rw [setLoop, countDown_eq toNat_maxSet ((get 13 15 _).isLt.trans (by decide)),
    maintained_flatMap, List.map_map, List.map_eq_flatMap]
  rfl

/-- The shift is three times the level. -/
theorem toNat_type (sys : CacheSystem) (hr10 : r10 = BitVec.ofNat 32 (2 * level))
    (hlevel : level < 7) :
    (lsr sys.CLIDR (r10 + r10 >>> 1) &&& 7).toNat = sys.Ctype level := by
  subst hr10
  have hshift :
      ((BitVec.ofNat 32 (2 * level) + BitVec.ofNat 32 (2 * level) >>> 1).setWidth 8).toNat =
        3 * level := by
    interval_cases level <;> rfl
  rw [lsr, hshift, BitVec.and_comm]
  exact toNat_mask_shift (3 * level) 3 (by decide)

theorem maintained_maintainLevel (hr10 : r10 = BitVec.ofNat 32 (2 * level)) (hlevel : level < 7) :
    maintained (maintainLevel op sys sys.CLIDR r10) =
      (levelLines sys level).map fun l => (op, codeOperand sys l) := by
  have htype := toNat_type sys hr10 hlevel
  have hlt : sys.Ctype level < 2 ^ 31 := (get (3 * level) 3 sys.CLIDR).isLt.trans (by decide)
  have hslt : (lsr sys.CLIDR (r10 + r10 >>> 1) &&& 7).slt 2 = true ↔ ¬2 ≤ sys.Ctype level := by
    rw [slt_small (htype ▸ hlt) (by decide), htype, not_le]
    rfl
  rw [maintainLevel, levelLines]
  by_cases hdata : 2 ≤ sys.Ctype level
  · rw [if_neg (not_not.mpr hdata ∘ hslt.mp), if_pos hdata, maintained_append,
      maintained_wayLoop hr10 rfl]
    rfl
  · rw [if_pos (hslt.mpr hdata), if_neg hdata]
    rfl

theorem slt_next {r3 : BitVec 32} {loc : Nat} (hr3 : r3.toNat = 2 * loc) (hloc : loc ≤ 7)
    (hr10 : r10 = BitVec.ofNat 32 (2 * level)) (hlevel : level < loc) :
    (r10 + 2).slt r3 = true ↔ level + 1 < loc := by
  have hnext : (r10 + 2).toNat = 2 * (level + 1) := by
    subst hr10
    bv_omega
  rw [slt_small (by omega) (by omega), hnext, hr3]
  omega

/-- Each round takes a level, and the last one is that before the level of coherency. -/
theorem levelLoop_eq (op : Operation) {r3 : BitVec 32} {count : Nat}
    (hr3 : r3.toNat = 2 * (level + count + 1)) (hloc : level + count + 1 ≤ 7)
    (hr10 : r10 = BitVec.ofNat 32 (2 * level)) :
    ∃ actions, (∀ rounds, count < rounds →
        levelLoop op sys sys.CLIDR r3 rounds r10 = some actions) ∧
      maintained actions = ((List.range' level (count + 1)).flatMap (levelLines sys)).map
        fun l => (op, codeOperand sys l) := by
  have hround : ∀ {k rounds : Nat}, k < rounds → ∃ n, rounds = n + 1 ∧ k ≤ n := fun {k rounds} h =>
    ⟨rounds - 1, by omega, by omega⟩
  induction count generalizing level r10 with
  | zero =>
    have hend : ¬(r10 + 2).slt r3 = true := fun h =>
      absurd ((slt_next hr3 hloc hr10 (by omega)).mp h) (by omega)
    refine ⟨maintainLevel op sys sys.CLIDR r10, fun rounds hrounds => ?_, ?_⟩
    · obtain ⟨rounds, rfl, -⟩ := hround hrounds
      rw [levelLoop, if_neg hend]
    · rw [maintained_maintainLevel hr10 (by omega), List.range'_one, List.flatMap_singleton]
  | succ count ih =>
    have hnext : r10 + 2 = BitVec.ofNat 32 (2 * (level + 1)) := by
      subst hr10
      bv_omega
    have hslt := (slt_next hr3 hloc hr10 (by omega)).mpr (by omega)
    obtain ⟨actions, hactions, hrest⟩ := ih (hr3.trans (by omega)) (by omega) hnext
    refine ⟨maintainLevel op sys sys.CLIDR r10 ++ actions, fun rounds hrounds => ?_, ?_⟩
    · obtain ⟨rounds, rfl, hlt⟩ := hround hrounds
      rw [levelLoop, if_pos hslt, hactions rounds hlt]
      rfl
    · rw [maintained_append, hrest, maintained_maintainLevel hr10 (by omega), ← List.map_append,
        ← List.flatMap_cons, ← List.range'_succ]

theorem toNat_LoC (sys : CacheSystem) : (sys.CLIDR &&& 0x07000000#32).toNat = sys.LoC * 2 ^ 24 := by
  rw [BitVec.toNat_and, show (0x07000000#32).toNat = (2 ^ 3 - 1) <<< 24 from rfl, and_mask,
    CacheSystem.LoC, toNat_get]

/-- Seven rounds are enough, and the program issues its operation for the lines in their order. -/
theorem maintainDataCaches_eq (op : Operation) (sys : CacheSystem) :
    ∃ actions, (∀ rounds, 7 ≤ rounds → maintainDataCaches op sys rounds = some actions) ∧
      maintained actions = (lines sys).map fun l => (op, codeOperand sys l) := by
  have hloc : sys.LoC ≤ 7 := Nat.le_of_lt_succ (get 24 3 sys.CLIDR).isLt
  have hr3 : ((sys.CLIDR &&& 0x07000000#32) >>> 23).toNat = 2 * sys.LoC := by
    rw [BitVec.toNat_ushiftRight, toNat_LoC, Nat.shiftRight_eq_div_pow]
    omega
  rcases Nat.eq_zero_or_pos sys.LoC with hzero | hpos
  · have hclear : sys.CLIDR &&& 0x07000000#32 = 0 := by
      apply BitVec.eq_of_toNat_eq
      rw [toNat_LoC, hzero]
      rfl
    refine ⟨[.DSB], fun rounds _ => if_pos hclear, ?_⟩
    rw [lines, hzero]
    rfl
  · have hset : sys.CLIDR &&& 0x07000000#32 ≠ 0 := by
      intro h
      have htoNat := toNat_LoC sys
      rw [h] at htoNat
      have hzero : (0 : BitVec 32).toNat = 0 := rfl
      omega
    obtain ⟨count, hcount⟩ : ∃ k, sys.LoC = 0 + k + 1 := ⟨sys.LoC - 1, by omega⟩
    obtain ⟨actions, hactions, hmaintained⟩ :=
      levelLoop_eq op (hcount ▸ hr3) (hcount ▸ hloc) rfl
    refine ⟨.DSB :: actions ++ [.DSB, .ISB], fun rounds hrounds => ?_, ?_⟩
    · rw [maintainDataCaches, if_neg hset]
      exact congrArg (Option.map fun actions => .DSB :: actions ++ [.DSB, .ISB])
        (hactions rounds (by omega))
    · rw [lines, hcount, Nat.zero_add, List.range_eq_range', ← hmaintained]
      exact (List.filterMap_append ..).trans (List.append_nil _)

/-! ## The lines -/

theorem mem_linesOf {g : CacheGeometry} :
    l ∈ linesOf level g ↔ l.level = level ∧ l.way < g.ways ∧ l.set < g.sets := by
  simp only [linesOf, List.mem_flatMap, List.mem_map, List.mem_reverse, List.mem_range]
  constructor
  · rintro ⟨way, hway, set, hset, rfl⟩
    exact ⟨rfl, hway, hset⟩
  · rintro ⟨rfl, hway, hset⟩
    exact ⟨l.way, hway, l.set, hset, rfl⟩

theorem nodup_linesOf {g : CacheGeometry} : (linesOf level g).Nodup := by
  rw [linesOf, List.nodup_flatMap]
  refine ⟨fun way _ => ?_, ?_⟩
  · refine (List.nodup_reverse.mpr List.nodup_range).map fun a b h => ?_
    exact (CacheLine.mk.inj h).2.2
  · refine (List.nodup_reverse.mpr List.nodup_range).imp fun hne => ?_
    simp only [Function.onFun, List.disjoint_left, List.mem_map]
    rintro l ⟨set, -, rfl⟩ ⟨set', -, h⟩
    exact hne (CacheLine.mk.inj h).2.1.symm

theorem mem_levelLines : l ∈ levelLines sys level ↔
    l.level = level ∧ 2 ≤ sys.Ctype level ∧ l.way < (sys.geometry level).ways ∧
      l.set < (sys.geometry level).sets := by
  rw [levelLines]
  split
  · rename_i hdata
    rw [mem_linesOf]
    exact and_congr_right fun _ => (and_iff_right hdata).symm
  · rename_i hdata
    exact iff_of_false List.not_mem_nil fun h => hdata h.2.1

theorem mem_lines : l ∈ lines sys ↔ sys.HasLine l := by
  simp only [lines, List.mem_flatMap, List.mem_range, mem_levelLines]
  constructor
  · rintro ⟨level, hlevel, rfl, hdata, hway, hset⟩
    exact ⟨hlevel, hdata, hway, hset⟩
  · rintro ⟨hlevel, hdata, hway, hset⟩
    exact ⟨l.level, hlevel, rfl, hdata, hway, hset⟩

theorem nodup_lines : (lines sys).Nodup := by
  rw [lines, List.nodup_flatMap]
  refine ⟨fun level _ => ?_, ?_⟩
  · rw [levelLines]
    split
    · exact nodup_linesOf
    · exact List.nodup_nil
  · refine List.nodup_range.imp fun hne => ?_
    simp only [Function.onFun, List.disjoint_left, mem_levelLines]
    exact fun l h h' => hne (h.1.symm.trans h'.1)

/-! ## The operands -/

theorem toNat_clz {w : Nat} {x : BitVec w} (hw : 0 < w) :
    x.clz.toNat = w - Nat.clog 2 (x.toNat + 1) := by
  have hle : x.clz.toNat ≤ w := by
    have hle := BitVec.le_def.mp (BitVec.clz_le (x := x))
    rwa [BitVec.natCast_eq_ofNat, BitVec.toNat_ofNat, Nat.mod_eq_of_lt Nat.lt_two_pow_self] at hle
  have hupper : Nat.clog 2 (x.toNat + 1) ≤ w - x.clz.toNat :=
    Nat.clog_le_of_le_pow (BitVec.toNat_lt_two_pow_sub_clz (x := x))
  have hlower : w - x.clz.toNat ≤ Nat.clog 2 (x.toNat + 1) := by
    by_cases hzero : x = 0
    · have hclz : x.clz.toNat = w := by
        rw [BitVec.clz_eq_iff_eq_zero.mpr hzero, BitVec.natCast_eq_ofNat, BitVec.toNat_ofNat,
          Nat.mod_eq_of_lt Nat.lt_two_pow_self]
      omega
    · have hpow := BitVec.two_pow_sub_clz_le_toNat_of_ne_zero hw hzero
      have hlt := (Nat.lt_clog_iff_pow_lt Nat.one_lt_two).mpr (Nat.lt_add_one_of_le hpow)
      omega
  omega

/-- The leading zeros of the last way are the bits below the field of the way. -/
theorem lsl_clz {x : BitVec 32} : lsl x (0x3FF#32 &&& r >>> 3).clz =
    x <<< (32 - (CacheGeometry.ofCCSIDR r).wayBits) := by
  have hclz := toNat_clz (x := 0x3FF#32 &&& r >>> 3) (by decide)
  rw [toNat_maxWay] at hclz
  rw [lsl, BitVec.toNat_setWidth, hclz, Nat.mod_eq_of_lt (by omega)]
  rfl

theorem lsl_lineShift {x : BitVec 32} :
    lsl x ((r &&& 7) + 4) = x <<< (CacheGeometry.ofCCSIDR r).lineShift := by
  have hfield : (r &&& 7#32).toNat = (get 0 3 r).toNat := by
    rw [BitVec.and_comm]
    exact toNat_mask_shift 0 3 (by decide)
  have hlt := (get 0 3 r).isLt
  have hsum : (((r &&& 7#32) + 4).setWidth 8).toNat = (get 0 3 r).toNat + 4 := by
    rw [BitVec.toNat_setWidth, BitVec.toNat_add, hfield]
    simp only [BitVec.ofNat_eq_ofNat, BitVec.toNat_ofNat]
    omega
  rw [lsl]
  exact congrArg _ hsum

theorem setWidth_field {len v : Nat} (hlen : len ≤ 32) (hv : v < 2 ^ len) :
    (BitVec.ofNat len v).setWidth 32 = BitVec.ofNat 32 v := by
  apply BitVec.eq_of_toNat_eq
  have hlt : v < 2 ^ 32 := Nat.lt_of_lt_of_le hv (Nat.pow_le_pow_right Nat.two_pos hlen)
  rw [BitVec.toNat_setWidth, BitVec.toNat_ofNat, BitVec.toNat_ofNat, Nat.mod_eq_of_lt hv]

/-- The numbers of a line fit their fields. -/
theorem fields_lt (hl : sys.HasLine l) : l.level < 2 ^ 3 ∧
    l.set < 2 ^ (sys.geometry l.level).setBits ∧ l.way < 2 ^ (sys.geometry l.level).wayBits :=
  ⟨hl.level.trans (get 24 3 sys.CLIDR).isLt, hl.set.trans_le (Nat.le_pow_clog Nat.one_lt_two _),
    hl.way.trans_le (Nat.le_pow_clog Nat.one_lt_two _)⟩

/-- The program puts the fields of the architecture together, if they fit. -/
theorem codeOperand_eq (hl : sys.HasLine l) (hfits : (sys.geometry l.level).Fits) :
    codeOperand sys l = (sys.geometry l.level).operand l := by
  have hline : 4 ≤ (sys.geometry l.level).lineShift := Nat.le_add_left 4 _
  obtain ⟨hlevel, hset, hway⟩ := fields_lt hl
  have hr10 : BitVec.ofNat 32 (2 * l.level) = BitVec.ofNat 32 l.level <<< 1 := by
    apply BitVec.eq_of_toNat_eq
    rw [BitVec.toNat_shiftLeft, BitVec.toNat_ofNat, BitVec.toNat_ofNat, Nat.shiftLeft_eq]
    omega
  rw [CacheGeometry.Fits] at hfits
  have hlevelField : set 1 (BitVec.ofNat 3 l.level) 0#32 = BitVec.ofNat 32 (2 * l.level) := by
    rw [set_of_get_eq_zero (by decide) get_zero, setWidth_field (by decide) hlevel,
      BitVec.zero_or, hr10]
  have hsetZero : get (sys.geometry l.level).lineShift (sys.geometry l.level).setBits
      (set 1 (BitVec.ofNat 3 l.level) 0#32) = 0#_ := by
    rw [get_set_of_disjoint (by decide) (.inr (by omega)), get_zero]
  have hwayZero : get (32 - (sys.geometry l.level).wayBits) (sys.geometry l.level).wayBits
      (set (sys.geometry l.level).lineShift (BitVec.ofNat (sys.geometry l.level).setBits l.set)
        (set 1 (BitVec.ofNat 3 l.level) 0#32)) = 0#_ := by
    rw [get_set_of_disjoint (by omega) (.inr (by omega)),
      get_set_of_disjoint (by decide) (.inr (by omega)), get_zero]
  rw [CacheGeometry.operand, set_of_get_eq_zero (by omega) hwayZero,
    set_of_get_eq_zero (by omega) hsetZero, hlevelField, setWidth_field (by omega) hset,
    setWidth_field (by omega) hway, codeOperand, lsl_clz, lsl_lineShift, BitVec.or_assoc,
    BitVec.or_assoc, BitVec.or_comm (BitVec.ofNat 32 l.way <<< _)]
  rfl

theorem encodes_operand (hl : sys.HasLine l) (hfits : (sys.geometry l.level).Fits) :
    (sys.geometry l.level).Encodes ((sys.geometry l.level).operand l) l := by
  have hline : 4 ≤ (sys.geometry l.level).lineShift := Nat.le_add_left 4 _
  obtain ⟨hlevel, hset, hway⟩ := fields_lt hl
  rw [CacheGeometry.Fits] at hfits
  refine ⟨?_, ?_, ?_, hline, by omega⟩
  · rw [CacheGeometry.operand, get_set_of_disjoint (by omega) (.inl (by omega)),
      get_set_of_disjoint (by omega) (.inl (by omega)), get_set (by decide), BitVec.toNat_ofNat,
      Nat.mod_eq_of_lt hlevel]
  · rw [CacheGeometry.operand, get_set_of_disjoint (by omega) (.inl (by omega)),
      get_set (by omega), BitVec.toNat_ofNat, Nat.mod_eq_of_lt hset]
  · rw [CacheGeometry.operand, get_set (by omega), BitVec.toNat_ofNat, Nat.mod_eq_of_lt hway]

/-- The line can be told from the operand. -/
theorem line_eq_of_operand_eq {l' : CacheLine} (hfits : sys.Fits) (hl : sys.HasLine l)
    (hl' : sys.HasLine l')
    (h : (sys.geometry l.level).operand l = (sys.geometry l'.level).operand l') : l = l' := by
  have hencodes := encodes_operand hl (hfits l.level hl.level hl.data)
  have hencodes' := encodes_operand hl' (hfits l'.level hl'.level hl'.data)
  have hlevel : l.level = l'.level := by rw [← hencodes.level, h, hencodes'.level]
  rw [← h, ← hlevel] at hencodes'
  obtain ⟨level, way, set⟩ := l
  obtain ⟨level', way', set'⟩ := l'
  rw [CacheLine.mk.injEq]
  exact ⟨hlevel, hencodes.way.symm.trans hencodes'.way, hencodes.set.symm.trans hencodes'.set⟩

/-- The program ends, and issues its operation once for every line of the caches with data below the
level of coherency, and for nothing else, if the fields of their geometries fit the operand. -/
theorem maintain_every_line (op : Operation) (sys : CacheSystem) (hfits : sys.Fits) :
    ∃ actions, (∀ rounds, 7 ≤ rounds → op.routine sys rounds = some actions) ∧
      (∀ l, sys.HasLine l →
        (maintained actions).count (op, (sys.geometry l.level).operand l) = 1 ∧
        (sys.geometry l.level).Encodes ((sys.geometry l.level).operand l) l) ∧
      ∀ m ∈ maintained actions, ∃ l, sys.HasLine l ∧
        m = (op, (sys.geometry l.level).operand l) := by
  obtain ⟨actions, hreturns, hmaintained⟩ := maintainDataCaches_eq op sys
  have hroutine : op.routine sys = maintainDataCaches op sys := by cases op <;> rfl
  have hoperands : maintained actions =
      (lines sys).map fun l => (op, (sys.geometry l.level).operand l) := by
    rw [hmaintained]
    refine List.map_congr_left fun l hl => ?_
    have hl := mem_lines.mp hl
    rw [codeOperand_eq hl (hfits l.level hl.level hl.data)]
  have hnodup : (maintained actions).Nodup := by
    rw [hoperands]
    refine nodup_lines.map_on fun l hl l' hl' h => ?_
    exact line_eq_of_operand_eq hfits (mem_lines.mp hl) (mem_lines.mp hl') (Prod.mk.inj h).2
  refine ⟨actions, hroutine ▸ hreturns, fun l hl => ⟨?_, ?_⟩, fun m hm => ?_⟩
  · refine List.count_eq_one_of_mem hnodup ?_
    rw [hoperands]
    exact List.mem_map_of_mem (mem_lines.mpr hl)
  · exact encodes_operand hl (hfits l.level hl.level hl.data)
  · rw [hoperands] at hm
    obtain ⟨l, hl, rfl⟩ := List.mem_map.mp hm
    exact ⟨l, mem_lines.mp hl, rfl⟩

/-- A data cache of 32 kB with four ways. -/
theorem maintain_every_line_32kB : ∃ actions,
    asm_clean_data_caches ⟨0x01000003, fun _ => 0x001FE019⟩ 7 = some actions ∧
      (maintained actions).count (.DCCSW, 0xC00000A0) = 1 := by
  have hfits : (⟨0x01000003, fun _ => 0x001FE019⟩ : CacheSystem).Fits := by
    intro level hlevel _
    have hzero : level = 0 := Nat.lt_one_iff.mp hlevel
    subst hzero
    decide
  obtain ⟨actions, hreturns, hlines, -⟩ := maintain_every_line .DCCSW _ hfits
  have hline := (hlines ⟨0, 3, 5⟩ ⟨by decide, by decide, by decide, by decide⟩).1
  exact ⟨actions, hreturns 7 (Nat.le_refl 7), hline⟩

/-- With 1024 ways of 32768 sets of 2048 bytes, way 1 of set 0 and way 0 of set 2048 have the same
operand. A cache of the reserved type 5 is maintained as well. -/
theorem maintain_overlaps :
    (∃ actions, asm_clean_data_caches ⟨0x01000004, fun _ => 0x0FFFFFFF⟩ 7 = some actions ∧
      ¬(maintained actions).Nodup) ∧
    ∃ actions, asm_clean_data_caches ⟨0x01000005, fun _ => 0⟩ 7 = some actions ∧
      maintained actions = [(.DCCSW, 0)] := by
  obtain ⟨actions, hreturns, hmaintained⟩ :=
    maintainDataCaches_eq .DCCSW ⟨0x01000004, fun _ => 0x0FFFFFFF⟩
  obtain ⟨actions', hreturns', hmaintained'⟩ :=
    maintainDataCaches_eq .DCCSW ⟨0x01000005, fun _ => 0⟩
  refine ⟨⟨actions, hreturns 7 (Nat.le_refl 7), fun hnodup => ?_⟩,
    actions', hreturns' 7 (Nat.le_refl 7), hmaintained'⟩
  rw [hmaintained] at hnodup
  have hsame := List.inj_on_of_nodup_map hnodup
    (mem_lines (l := ⟨0, 1, 0⟩) |>.mpr ⟨by decide, by decide, by decide, by decide⟩)
    (mem_lines (l := ⟨0, 0, 2048⟩) |>.mpr ⟨by decide, by decide, by decide, by decide⟩) (by decide)
  exact absurd hsame (by decide)

end ARMV7CacheControl

end CyPhOS
