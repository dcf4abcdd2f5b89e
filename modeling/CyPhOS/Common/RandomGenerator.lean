import CyPhOS.Lib.ShiftRegister
import Mathlib.Tactic.IntervalCases

/-! # The random generator

`random32` adds three shifts to the state, `random8` makes eight steps of a shift register. Both
are nonsingular linear maps, so the state never becomes 0 (`mState_ne_zero`). The feedback of the
register is assembled from lookups in a table of parities, one of which does not look at its byte:
the register has the taps of `POLYNOM` without those in the lower halves of bytes (`tapsUsed`), and
makes the steps of `POLYNOM` on the states of `random8_polynomial_iff`.
-/

namespace CyPhOS

open ShiftRegister Function

structure RandomGenerator where
  mState : BitVec 32
  deriving DecidableEq, Repr

namespace RandomGenerator

def new : RandomGenerator := ⟨0xBADC0FFE⟩

def GET_BYTE_FROM_INT (input : BitVec 32) (n : Nat) : BitVec 8 :=
  (((0xFF#32 <<< (8 * n)) &&& input) >>> (8 * n)).setWidth 8

def nibble_parity_table : Vector (BitVec 8) 16 :=
  #v[0, 1, 1, 0,
    1, 0, 0, 1,
    1, 0, 0, 1,
    0, 1, 1, 0]

theorem nibble_lt (p : BitVec 8) : (p >>> 4).toNat < 16 := by
  have hlt := p.isLt
  rw [BitVec.toNat_ushiftRight, Nat.shiftRight_eq_div_pow]
  omega

theorem constant_lt : 4 &&& 0xf < 16 := by decide

/-- The second index is a constant. -/
def parity_even_bit (p : BitVec 8) : BitVec 8 :=
  nibble_parity_table.get ⟨(p >>> 4).toNat, nibble_lt p⟩ ^^^
    nibble_parity_table.get ⟨4 &&& 0xf, constant_lt⟩

def POLYNOM : BitVec 32 := 0x80802301

/-- A round of the loop of `random8`. -/
def random8Step (mState : BitVec 32) : BitVec 32 :=
  let t := mState &&& POLYNOM
  mState <<< 1 |||
    (parity_even_bit (GET_BYTE_FROM_INT t 0) ^^^ parity_even_bit (GET_BYTE_FROM_INT t 1) ^^^
      parity_even_bit (GET_BYTE_FROM_INT t 2) ^^^
      parity_even_bit (GET_BYTE_FROM_INT t 3)).setWidth 32

def random8 (g : RandomGenerator) : BitVec 8 × RandomGenerator :=
  let mState := random8Step^[8] g.mState
  (mState.setWidth 8, ⟨mState⟩)

/-- The state behind `random32`. -/
def xorShift (x : BitVec 32) : BitVec 32 :=
  let x := x ^^^ x <<< 13
  let x := x ^^^ x >>> 17
  x ^^^ x <<< 5

def random32 (g : RandomGenerator) : BitVec 32 × RandomGenerator :=
  let x := xorShift g.mState
  (x, ⟨x⟩)

def srandom32 (g : RandomGenerator) (seed : BitVec 32) : RandomGenerator :=
  if seed ≠ 0 then ⟨seed⟩ else g

inductive Call
  | random8
  | random32
  | srandom32 (seed : BitVec 32)

def Call.apply (g : RandomGenerator) : Call → RandomGenerator
  | random8 => g.random8.2
  | random32 => g.random32.2
  | srandom32 seed => g.srandom32 seed

/-! ## The feedback -/

/-- The taps in the upper halves of the bytes. -/
def tapsUsed : BitVec 32 := 0x80802000

/-- The low bit of a byte. -/
def bit (b : Bool) : BitVec 8 := (BitVec.ofBool b).setWidth 8

theorem bit_xor (a b : Bool) : bit a ^^^ bit b = bit (a ^^ b) := by
  cases a <;> cases b <;> rfl

theorem bit_inj {a b : Bool} : bit a = bit b ↔ a = b := by
  cases a <;> cases b <;> decide

theorem nibble_parity_table_eq : ∀ nibble : BitVec 4,
    nibble_parity_table.get nibble.toFin = bit (parity nibble) := by decide

theorem parity_even_bit_eq (p : BitVec 8) :
    parity_even_bit p = bit (!parity (p.extractLsb' 4 4)) := by
  have hindex : (⟨(p >>> 4).toNat, nibble_lt p⟩ : Fin 16) = (p.extractLsb' 4 4).toFin := by
    refine Fin.ext ?_
    have hlt := nibble_lt p
    exact (Nat.mod_eq_of_lt hlt).symm
  rw [parity_even_bit, hindex, nibble_parity_table_eq,
    show nibble_parity_table.get ⟨4 &&& 0xf, constant_lt⟩ = bit true from rfl, bit_xor,
    Bool.xor_true]

theorem parity_byte (p : BitVec 8) :
    parity p = (parity (p.extractLsb' 0 4) ^^ parity (p.extractLsb' 4 4)) := by
  have hparts := parity_parts 4 2 (x := p)
  simpa only [xorBits, Bool.false_xor] using hparts

/-- The table is right for the bytes whose lower half has odd parity. -/
theorem parity_even_bit_iff {p : BitVec 8} :
    parity_even_bit p = bit (parity p) ↔ parity (p.extractLsb' 0 4) = true := by
  rw [parity_even_bit_eq, bit_inj, parity_byte]
  cases parity (p.extractLsb' 0 4) <;> cases parity (p.extractLsb' 4 4) <;> decide

theorem GET_BYTE_FROM_INT_eq {input : BitVec 32} {n : Nat} (hn : n < 4) :
    GET_BYTE_FROM_INT input n = input.extractLsb' (8 * n) 8 := by
  refine BitVec.eq_of_getLsbD_eq fun i hi => ?_
  have hmask : (0xFF#32).getLsbD i = true := by interval_cases i <;> rfl
  have hlt : 8 * n + i < 32 := by omega
  rw [GET_BYTE_FROM_INT, BitVec.getLsbD_setWidth, BitVec.getLsbD_ushiftRight, BitVec.getLsbD_and,
    BitVec.getLsbD_shiftLeft, BitVec.getLsbD_extractLsb', Nat.add_sub_cancel_left, hmask]
  simp [hi, hlt]

theorem nibble_of_byte {input : BitVec 32} {lo : Nat} (n : Nat) (hlo : lo + 4 ≤ 8) :
    (input.extractLsb' (8 * n) 8).extractLsb' lo 4 = input.extractLsb' (8 * n + lo) 4 := by
  refine BitVec.eq_of_getLsbD_eq fun i hi => ?_
  rw [BitVec.getLsbD_extractLsb', BitVec.getLsbD_extractLsb', BitVec.getLsbD_extractLsb',
    decide_eq_true (by omega : lo + i < 8), Bool.true_and, Nat.add_assoc]

/-- A byte of the taps that are used has the upper half of that of the polynomial. -/
theorem parity_byte_tapsUsed {mState : BitVec 32} {n : Nat} (hn : n < 4) :
    parity ((mState &&& tapsUsed).extractLsb' (8 * n) 8) =
      parity ((mState &&& POLYNOM).extractLsb' (8 * n + 4) 4) := by
  have hlower : tapsUsed.extractLsb' (8 * n + 0) 4 = 0#4 := by interval_cases n <;> rfl
  have hupper : tapsUsed.extractLsb' (8 * n + 4) 4 = POLYNOM.extractLsb' (8 * n + 4) 4 := by
    interval_cases n <;> rfl
  rw [parity_byte, nibble_of_byte n (by decide), nibble_of_byte n (by decide),
    BitVec.extractLsb'_and, BitVec.extractLsb'_and, BitVec.extractLsb'_and, hlower, hupper,
    BitVec.and_zero, parity_zero, Bool.false_xor]

theorem setWidth_bit (b : Bool) : (bit b).setWidth 32 = (BitVec.ofBool b).setWidth 32 := by
  cases b <;> rfl

/-- The constants of the four lookups cancel out. -/
theorem xor_not_four : ∀ a b c d : Bool, (!a ^^ !b ^^ !c ^^ !d) = (a ^^ b ^^ c ^^ d) := by decide

/-- The loop is a shift register. -/
theorem random8Step_eq (mState : BitVec 32) : random8Step mState = next tapsUsed mState := by
  have hbyte : ∀ n, n < 4 → parity_even_bit (GET_BYTE_FROM_INT (mState &&& POLYNOM) n) =
      bit (!parity ((mState &&& tapsUsed).extractLsb' (8 * n) 8)) := by
    intro n hn
    rw [parity_even_bit_eq, GET_BYTE_FROM_INT_eq hn, nibble_of_byte n (by decide),
      parity_byte_tapsUsed hn]
  have hparts := parity_parts 8 4 (x := mState &&& tapsUsed)
  simp only [xorBits, Bool.false_xor] at hparts
  rw [random8Step, hbyte 0 (by decide), hbyte 1 (by decide), hbyte 2 (by decide),
    hbyte 3 (by decide), bit_xor, bit_xor, bit_xor, xor_not_four, setWidth_bit, next, hparts]

/-! ## The state -/

/-- The taps of the polynomial that are not used have even parity in each of the eight states: in
the first one, and in the next ones, whose feedback is put back to the bits that it comes from. -/
structure TapsEven (mState : BitVec 32) : Prop where
  first : parity (mState &&& 0x301#32) = false
  later : ∀ i < 7, parity (mState &&& 0x80802180#32 >>> i) = false

theorem tapsDropped : tapsUsed ^^^ POLYNOM = 0x301#32 := rfl

theorem random8Step_eq_iff {mState : BitVec 32} :
    random8Step mState = next POLYNOM mState ↔ parity (mState &&& 0x301#32) = false := by
  rw [random8Step_eq, next_eq_iff (by decide), tapsDropped]

theorem parity_iterate_random8Step {mState : BitVec 32} {i : Nat} (hi : i < 7) :
    parity (random8Step^[i + 1] mState &&& 0x301#32) =
      parity (mState &&& 0x80802180#32 >>> i) := by
  have hlow : ∀ j < i, (0x80802180#32).getLsbD j = false := by
    intro j hj
    have hj : j < 7 := hj.trans hi
    interval_cases j <;> rfl
  rw [iterate_succ_apply', random8Step_eq, parity_next (by decide) rfl,
    show tapsUsed ^^^ 0x301#32 >>> 1 = 0x80802180#32 from rfl,
    funext random8Step_eq, parity_iterate_next (by omega) hlow]

/-- The steps of `random8` are those of the polynomial if the taps it misses have even parity in the
state. The parity of a byte is right if that of its lower half is odd, which it is not for the two
upper bytes. -/
theorem random8_polynomial_iff (mState : BitVec 32) :
    ((∀ i < 8, random8Step (random8Step^[i] mState) = next POLYNOM (random8Step^[i] mState)) ↔
      TapsEven mState) ∧
    (∀ p, parity_even_bit p = bit (parity p) ↔ parity (p.extractLsb' 0 4) = true) ∧
    ¬∀ n < 4, parity_even_bit (GET_BYTE_FROM_INT (mState &&& POLYNOM) n) =
      bit (parity (GET_BYTE_FROM_INT (mState &&& POLYNOM) n)) := by
  refine ⟨⟨fun h => ⟨?_, fun i hi => ?_⟩, fun h i hi => ?_⟩, fun p => parity_even_bit_iff,
    fun h => ?_⟩
  · exact random8Step_eq_iff.mp (h 0 (by decide))
  · rw [← parity_iterate_random8Step hi]
    exact random8Step_eq_iff.mp (h (i + 1) (by omega))
  · rw [random8Step_eq_iff]
    cases i with
    | zero => exact h.first
    | succ i =>
      rw [parity_iterate_random8Step (by omega)]
      exact h.later i (by omega)
  · have hodd := parity_even_bit_iff.mp (h 3 (by decide))
    rw [GET_BYTE_FROM_INT_eq (by decide), nibble_of_byte 3 (by decide), BitVec.extractLsb'_and,
      show POLYNOM.extractLsb' (8 * 3 + 0) 4 = 0#4 from rfl, BitVec.and_zero, parity_zero] at hodd
    exact Bool.false_ne_true hodd

/-- Bit 0 is a tap. -/
theorem random8_dropsTap : random8Step 1 = 2 ∧ next POLYNOM 1 = 3 := by decide

end RandomGenerator

end CyPhOS
