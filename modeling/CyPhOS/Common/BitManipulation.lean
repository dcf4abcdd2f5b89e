import CyPhOS.Lib.BitField

/-! # Single bits of a register -/

namespace CyPhOS

variable {w n i : Nat} {val : BitVec w} {flag : Bool}

/-- Sets bit `n` of `val` to `flag`. -/
def setbit (val : BitVec w) (n : Nat) (flag : Bool) : BitVec w :=
  if flag then val ||| (1#w <<< n) else val &&& ~~~(1#w <<< n)

theorem getLsbD_one_shiftLeft (hn : n < w) : (1#w <<< n).getLsbD i = decide (i = n) := by
  rw [BitVec.getLsbD_shiftLeft, BitVec.getLsbD_one]
  rcases Nat.lt_trichotomy i n with hlt | rfl | hgt
  · simp [hlt, hlt.ne]
  · simp [hn, Nat.zero_lt_of_lt hn]
  · have hsub : i - n ≠ 0 := by omega
    simp [hgt.ne', hsub]

theorem getLsbD_setbit (hn : n < w) :
    (setbit val n flag).getLsbD i = if i = n then flag else val.getLsbD i := by
  cases flag with
  | false =>
    simp only [setbit, Bool.false_eq_true, if_false, BitVec.getLsbD_and, BitVec.getLsbD_not,
      getLsbD_one_shiftLeft hn]
    rcases eq_or_ne i n with rfl | hne
    · simp
    · by_cases hi : i < w
      · simp [hne, hi]
      · simp [hne, BitVec.getLsbD_of_ge _ _ (Nat.le_of_not_lt hi)]
  | true =>
    simp only [setbit, if_true, BitVec.getLsbD_or, getLsbD_one_shiftLeft hn]
    rcases eq_or_ne i n with rfl | hne
    · simp
    · simp [hne]

/-- A test of a single bit. -/
theorem and_one_shiftLeft_eq_zero_iff (hn : n < w) :
    val &&& (1#w <<< n) = 0 ↔ val.getLsbD n = false := by
  constructor
  · intro h
    have hbit := congrArg (fun x => BitVec.getLsbD x n) h
    simpa [getLsbD_one_shiftLeft hn] using hbit
  · intro h
    apply BitVec.eq_of_getLsbD_eq
    intro i hi
    rw [BitVec.getLsbD_and, getLsbD_one_shiftLeft hn]
    rcases eq_or_ne i n with rfl | hne
    · simp [h]
    · simp [hne]

/-- Setting bits that are not the same one, or to the same value, in either order. -/
theorem setbit_comm {m : Nat} {flag' : Bool} (hn : n < w) (hm : m < w)
    (h : n ≠ m ∨ flag = flag') :
    setbit (setbit val n flag) m flag' = setbit (setbit val m flag') n flag := by
  apply BitVec.eq_of_getLsbD_eq
  intro i hi
  rw [getLsbD_setbit hm, getLsbD_setbit hn, getLsbD_setbit hn, getLsbD_setbit hm]
  rcases eq_or_ne i n with rfl | hin
  · rcases eq_or_ne i m with rfl | him
    · rw [if_pos rfl, if_pos rfl, h.resolve_left fun hne => hne rfl]
    · rw [if_neg him, if_pos rfl, if_pos rfl]
  · simp only [if_neg hin]

theorem get_setbit_of_disjoint {lo len : Nat} (hn : n < w) (h : n < lo ∨ lo + len ≤ n) :
    BitField.get lo len (setbit val n flag) = BitField.get lo len val := by
  apply BitVec.eq_of_getLsbD_eq
  intro i hi
  rw [BitField.getLsbD_get, BitField.getLsbD_get, getLsbD_setbit hn, if_neg (by omega)]

end CyPhOS
