import Mathlib.Data.BitVec
import Mathlib.Data.Nat.Nth

/-! # Counters with a comparator

A counter of `w` bits counts up and wraps around. When it reaches the comparator it matches, and the
comparator goes up by the increment. `MatchTimer.Matches t n` says that the `n`-th count from `t` on
is a match. From a cleared counter the matches come at the comparator and then at every increment
(`matches_iff`, `nth_matches`).
-/

structure MatchTimer (w : Nat) where
  counter : BitVec w
  comparator : BitVec w
  increment : BitVec w
  deriving DecidableEq, Repr

namespace MatchTimer

variable {w : Nat} {t : MatchTimer w} {C a n j : Nat}

def count (t : MatchTimer w) : MatchTimer w :=
  let counter := t.counter + 1#w
  { t with
    counter := counter
    comparator := if counter = t.comparator then t.comparator + t.increment else t.comparator }

def run (t : MatchTimer w) : Nat → MatchTimer w
  | 0 => t
  | n + 1 => (t.run n).count

/-- The `n`-th count reaches the comparator. -/
def Matches (t : MatchTimer w) : Nat → Prop
  | 0 => False
  | n + 1 => (t.run n).counter + 1#w = (t.run n).comparator

instance : DecidablePred t.Matches
  | 0 => inferInstanceAs (Decidable False)
  | _ + 1 => inferInstanceAs (Decidable (_ = _))

/-- A cleared counter, of which the first match comes at `C` and the others every `a` counts. No
count is beyond the range of the counter, so that an increment of `2 ^ w` is one of 0. -/
structure Starts (t : MatchTimer w) (C a : Nat) : Prop where
  counter : t.counter = 0
  comparator : t.comparator = BitVec.ofNat w C
  increment : t.increment = BitVec.ofNat w a
  first_pos : 0 < C
  first_le : C ≤ 2 ^ w
  pos : 0 < a
  le : a ≤ 2 ^ w

/-- `n` counts have had `j` matches. -/
structure Counted (t : MatchTimer w) (C a n j : Nat) : Prop where
  counter : (t.run n).counter = BitVec.ofNat w n
  comparator : (t.run n).comparator = BitVec.ofNat w (C + j * a)
  increment : (t.run n).increment = BitVec.ofNat w a
  lt : n < C + j * a
  le : C + j * a ≤ n + 2 ^ w
  past : ∀ i, C + i * a ≤ n ↔ i < j

theorem ofNat_inj_of_near {b : Nat} (hle : n ≤ b) (hlt : b < n + 2 ^ w) :
    BitVec.ofNat w n = BitVec.ofNat w b ↔ n = b := by
  refine ⟨fun h => ?_, fun h => h ▸ rfl⟩
  have hmod : b ≡ n [MOD 2 ^ w] := by
    have := congrArg BitVec.toNat h
    rw [BitVec.toNat_ofNat, BitVec.toNat_ofNat] at this
    exact this.symm
  have hdvd : 2 ^ w ∣ b - n := (Nat.modEq_iff_dvd' hle).mp hmod.symm
  have hzero : b - n = 0 := Nat.eq_zero_of_dvd_of_lt hdvd (by omega)
  omega

/-- The next count matches if it is the one that the comparator stands for. -/
theorem Counted.matches_succ (h : t.Counted C a n j) : t.Matches (n + 1) ↔ n + 1 = C + j * a := by
  rw [Matches, h.counter, h.comparator, ← BitVec.ofNat_add]
  have := h.lt
  have := h.le
  exact ofNat_inj_of_near (by omega) (by omega)

theorem Counted.counter_succ (h : t.Counted C a n j) :
    (t.run (n + 1)).counter = BitVec.ofNat w (n + 1) := by
  rw [run, count, h.counter, BitVec.ofNat_add]

theorem Starts.counted_zero (h : t.Starts C a) : t.Counted C a 0 0 := by
  refine ⟨h.counter, ?_, h.increment, ?_, ?_, fun i => ?_⟩
  · rw [Nat.zero_mul]
    exact h.comparator
  · rw [Nat.zero_mul]
    exact h.first_pos
  · rw [Nat.zero_mul, Nat.add_zero, Nat.zero_add]
    exact h.first_le
  · have := h.first_pos
    omega

/-- A count that matches moves the comparator on. -/
theorem Counted.count_match (h : t.Counted C a n j) (hpos : 0 < a) (hle : a ≤ 2 ^ w)
    (heq : n + 1 = C + j * a) : t.Counted C a (n + 1) (j + 1) := by
  have hsucc : C + (j + 1) * a = n + 1 + a := by rw [Nat.succ_mul, ← Nat.add_assoc, ← heq]
  refine ⟨h.counter_succ, ?_, h.increment, by omega, by omega, fun i => ?_⟩
  · have hnew : (t.run (n + 1)).comparator = (t.run n).comparator + (t.run n).increment :=
      if_pos (h.matches_succ.mpr heq)
    rw [hnew, h.comparator, h.increment, ← BitVec.ofNat_add, hsucc, ← heq]
  · rw [heq, Nat.add_le_add_iff_left, Nat.mul_le_mul_right_iff hpos, Nat.lt_succ_iff]

theorem Counted.count_other (h : t.Counted C a n j) (hne : n + 1 ≠ C + j * a) :
    t.Counted C a (n + 1) j := by
  have hlt := h.lt
  have hle := h.le
  refine ⟨h.counter_succ, ?_, h.increment, by omega, by omega,
    fun i => ⟨fun hi => ?_, fun hi => ?_⟩⟩
  · have hold : (t.run (n + 1)).comparator = (t.run n).comparator :=
      if_neg fun hmatch => hne (h.matches_succ.mp hmatch)
    rw [hold, h.comparator]
  · have hlast : C + i * a < C + j * a := by omega
    exact Nat.lt_of_mul_lt_mul_right (Nat.lt_of_add_lt_add_left hlast)
  · exact Nat.le_succ_of_le ((h.past i).mpr hi)

theorem Starts.counted (h : t.Starts C a) (n : Nat) : ∃ j, t.Counted C a n j := by
  induction n with
  | zero => exact ⟨0, h.counted_zero⟩
  | succ n ih =>
    obtain ⟨j, ih⟩ := ih
    by_cases heq : n + 1 = C + j * a
    · exact ⟨j + 1, ih.count_match h.pos h.le heq⟩
    · exact ⟨j, ih.count_other heq⟩

theorem Starts.matches_iff (h : t.Starts C a) : t.Matches n ↔ ∃ j, n = C + j * a := by
  cases n with
  | zero =>
    have := h.first_pos
    simp only [Matches, false_iff, not_exists]
    omega
  | succ n =>
    obtain ⟨j, hj⟩ := h.counted n
    rw [hj.matches_succ]
    constructor
    · exact fun heq => ⟨j, heq⟩
    · rintro ⟨i, heq⟩
      have hnot : ¬ i < j := fun hlt => by have := (hj.past i).mpr hlt; omega
      have hmul : j * a ≤ i * a := Nat.mul_le_mul_right a (Nat.le_of_not_lt hnot)
      have := hj.lt
      omega

/-- The matches, numbered from 0 on. -/
theorem Starts.nth_matches (h : t.Starts C a) (j : Nat) : Nat.nth t.Matches j = C + j * a := by
  have hmono : StrictMono fun j => C + j * a := by
    intro i j hij
    exact Nat.add_lt_add_left (Nat.mul_lt_mul_of_pos_right hij h.pos) C
  have hset : Set.range (fun j => C + j * a) = Set.ofPred t.Matches := by
    ext n
    rw [Set.mem_range, Set.mem_ofPred_eq, h.matches_iff]
    exact exists_congr fun j => eq_comm
  have hinfinite : (Set.ofPred t.Matches).Infinite :=
    hset ▸ Set.infinite_range_of_injective hmono.injective
  have hnth := (Nat.nth_strictMono hinfinite).range_inj hmono
  exact congrFun (hnth.mp ((Nat.range_nth_of_infinite hinfinite).trans hset.symm)) j

/-- All matches are at the multiples of the first one if the increment is the same. -/
theorem Starts.nth_matches_multiple_iff (h : t.Starts C a) :
    (∀ k ≥ 1, Nat.nth t.Matches (k - 1) = k * C) ↔ a = C := by
  constructor
  · intro hall
    have hsecond := hall 2 (by decide)
    rw [h.nth_matches] at hsecond
    omega
  · rintro rfl k hk
    obtain ⟨k, rfl⟩ := Nat.exists_eq_add_of_le' hk
    rw [h.nth_matches, Nat.add_sub_cancel, Nat.succ_mul, Nat.add_comm]

end MatchTimer
