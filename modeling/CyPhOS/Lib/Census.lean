import Mathlib.Algebra.BigOperators.Group.Finset.Piecewise
import Mathlib.Algebra.Order.BigOperators.Group.Finset
import Mathlib.Data.Fintype.BigOperators

/-! # Counting parties

`census f p` is the number of parties whose state, as `f` gives it, satisfies `p`. A step of one
party is a `Function.update` of `f`, and `census_update` says what it does to a count. Counts bound
what the parties can do together: a count of at most 1 makes a party unique, a full count means that
all parties satisfy `p`.
-/

namespace Census

variable {ι α : Type*} [Fintype ι] {f : ι → α} {p q : α → Bool} {i j : ι}

/-- How many parties are in a state that satisfies `p`. -/
def census (f : ι → α) (p : α → Bool) : Nat := ∑ i, (p (f i)).toNat

theorem census_congr (h : ∀ i, p (f i) = q (f i)) : census f p = census f q :=
  Finset.sum_congr rfl fun i _ => by rw [h i]

theorem census_const {a : α} (h : p a = false) : census (fun _ : ι => a) p = 0 := by
  simp [census, h]

theorem census_eq_zero_iff : census f p = 0 ↔ ∀ i, p (f i) = false := by
  simp [census, Finset.sum_eq_zero_iff]

theorem census_pos (h : p (f i) = true) : 0 < census f p := by
  rw [Nat.pos_iff_ne_zero]
  intro hzero
  rw [census_eq_zero_iff.mp hzero i] at h
  cases h

theorem census_mono (h : ∀ i, p (f i) = true → q (f i) = true) : census f p ≤ census f q := by
  refine Finset.sum_le_sum fun i _ => ?_
  cases hp : p (f i) with
  | false => exact Nat.zero_le _
  | true => rw [h i hp]

theorem census_or_of_disjoint (h : ∀ i, p (f i) = true → q (f i) = false) :
    census f (fun a => p a || q a) = census f p + census f q := by
  rw [census, census, census, ← Finset.sum_add_distrib]
  refine Finset.sum_congr rfl fun i _ => ?_
  cases hp : p (f i) with
  | false => simp
  | true => simp [h i hp]

theorem census_add_not (f : ι → α) (p : α → Bool) :
    census f p + census f (fun a => !p a) = Fintype.card ι := by
  have hall : census f (fun a => p a || !p a) = Fintype.card ι := by simp [census]
  rw [← hall, census_or_of_disjoint]
  intro i hi
  simp [hi]

/-- A party that does not satisfy `p` is missing from the count. -/
theorem census_lt_card (h : p (f i) = false) : census f p < Fintype.card ι := by
  have hnot : 0 < census f (fun a => !p a) := census_pos (i := i) (by simp [h])
  have := census_add_not f p
  omega

section
variable [DecidableEq ι]

/-- A step of one party. -/
theorem census_update (f : ι → α) (i : ι) (a : α) (p : α → Bool) :
    census (Function.update f i a) p + (p (f i)).toNat = census f p + (p a).toNat := by
  have hcomp : (fun j => (p (Function.update f i a j)).toNat) =
      Function.update (fun j => (p (f j)).toNat) i (p a).toNat := by
    funext j
    rcases eq_or_ne j i with rfl | hne
    · simp
    · simp [hne]
  rw [census, census, hcomp, Finset.sum_update_of_mem (Finset.mem_univ i),
    Finset.sum_eq_add_sum_sdiff_singleton_of_mem (Finset.mem_univ i) fun j => (p (f j)).toNat]
  omega

theorem census_update_of_eq {a : α} (h : p a = p (f i)) :
    census (Function.update f i a) p = census f p := by
  have := census_update f i a p
  rw [h] at this
  omega

theorem census_update_enter {a : α} (hold : p (f i) = false) (hnew : p a = true) :
    census (Function.update f i a) p = census f p + 1 := by
  have := census_update f i a p
  simpa [hold, hnew] using this

theorem census_update_leave {a : α} (hold : p (f i) = true) (hnew : p a = false) :
    census (Function.update f i a) p + 1 = census f p := by
  have := census_update f i a p
  simpa [hold, hnew] using this

/-- Two parties that satisfy `p` are counted twice. -/
theorem eq_of_census_le_one (h : census f p ≤ 1) (hi : p (f i) = true) (hj : p (f j) = true) :
    i = j := by
  by_contra hne
  have herase : (p (f i)).toNat + ∑ k ∈ Finset.univ \ {i}, (p (f k)).toNat = census f p :=
    (Finset.sum_eq_add_sum_sdiff_singleton_of_mem (Finset.mem_univ i) fun k =>
      (p (f k)).toNat).symm
  have hother : (p (f j)).toNat ≤ ∑ k ∈ Finset.univ \ {i}, (p (f k)).toNat :=
    Finset.single_le_sum (f := fun k => (p (f k)).toNat) (fun _ _ => Nat.zero_le _)
      (by simp [Ne.symm hne])
  rw [hi, Bool.toNat_true] at herase
  rw [hj, Bool.toNat_true] at hother
  omega

/-- When only one party is missing from the count, all others satisfy `p`. -/
theorem of_census_add_one_eq_card (h : census f p + 1 = Fintype.card ι) (hi : p (f i) = false)
    (hj : j ≠ i) : p (f j) = true := by
  have hnot := census_add_not f p
  cases hp : p (f j) with
  | true => rfl
  | false =>
    have hone : census f (fun a => !p a) ≤ 1 := by omega
    exact absurd (eq_of_census_le_one hone (by simp [hp]) (by simp [hi])) hj

end

end Census
