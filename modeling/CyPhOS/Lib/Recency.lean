import Mathlib.Data.Nat.Basic

/-! # When items were last used

A `Recency` keeps for each item when it was last used, on two clocks. `now` goes on with every event,
`epoch` only with some of them. The age of an item is the number of epochs since its last use. Ages
order the items as their last uses do but for ties: items that were last used in one epoch have the
same age (`Ordered.tie`).
-/

structure Recency (ι : Type*) where
  now : Nat
  epoch : Nat
  lastUse : ι → Nat
  usedIn : ι → Nat

namespace Recency

variable {ι : Type*} {r : Recency ι} {p : ι → Prop} [DecidablePred p] {i j : ι}

def start : Recency ι where
  now := 0
  epoch := 0
  lastUse _ := 0
  usedIn _ := 0

def tick (r : Recency ι) : Recency ι := { r with now := r.now + 1 }

def nextEpoch (r : Recency ι) : Recency ι := { r with epoch := r.epoch + 1 }

/-- The items with the property are used now. -/
def use (r : Recency ι) (p : ι → Prop) [DecidablePred p] : Recency ι :=
  { r with
    lastUse := fun i => if p i then r.now else r.lastUse i
    usedIn := fun i => if p i then r.epoch else r.usedIn i }

def age (r : Recency ι) (i : ι) : Nat := r.epoch - r.usedIn i

@[simp] theorem age_tick : r.tick.age i = r.age i := rfl

theorem age_use_of_pos (h : p i) : (r.use p).age i = 0 := by
  simp [age, use, h]

theorem age_use_of_neg (h : ¬ p i) : (r.use p).age i = r.age i := by
  simp [age, use, h]

/-- The two clocks tell the uses in the same order. -/
structure Ordered (r : Recency ι) : Prop where
  lastUse_le : ∀ i, r.lastUse i ≤ r.now
  usedIn_le : ∀ i, r.usedIn i ≤ r.epoch
  mono : ∀ i j, r.lastUse i < r.lastUse j → r.usedIn i ≤ r.usedIn j

theorem Ordered.start : (start : Recency ι).Ordered :=
  ⟨fun _ => le_rfl, fun _ => le_rfl, fun _ _ _ => le_rfl⟩

theorem Ordered.tick (h : r.Ordered) : r.tick.Ordered :=
  ⟨fun i => Nat.le_succ_of_le (h.lastUse_le i), h.usedIn_le, h.mono⟩

theorem Ordered.nextEpoch (h : r.Ordered) : r.nextEpoch.Ordered :=
  ⟨h.lastUse_le, fun i => Nat.le_succ_of_le (h.usedIn_le i), h.mono⟩

theorem Ordered.age_nextEpoch (h : r.Ordered) : r.nextEpoch.age i = r.age i + 1 :=
  Nat.succ_sub (h.usedIn_le i)

theorem Ordered.use (h : r.Ordered) (p : ι → Prop) [DecidablePred p] : (r.use p).Ordered := by
  refine ⟨fun i => ?_, fun i => ?_, fun i j hlt => ?_⟩
  · simp only [Recency.use]
    split
    · exact le_rfl
    · exact h.lastUse_le i
  · simp only [Recency.use]
    split
    · exact le_rfl
    · exact h.usedIn_le i
  · simp only [Recency.use] at hlt ⊢
    by_cases hj : p j
    · rw [if_pos hj]
      split
      · exact le_rfl
      · exact h.usedIn_le i
    · rw [if_neg hj] at hlt ⊢
      have hi : ¬ p i := fun hi => by
        rw [if_pos hi] at hlt
        exact absurd (h.lastUse_le j) (Nat.not_le.mpr hlt)
      rw [if_neg hi] at hlt ⊢
      exact h.mono i j hlt

/-- Of two items the one that was used earlier has the greater age, up to a bound on the ages that
are told apart, unless both were used in the same epoch. -/
theorem Ordered.tie (h : r.Ordered) {bound : Nat} (hlt : r.lastUse i < r.lastUse j)
    (hage : min bound (r.age i) ≤ min bound (r.age j)) :
    r.usedIn i = r.usedIn j ∨ bound ≤ r.age j := by
  have hmono := h.mono i j hlt
  have hi := h.usedIn_le i
  have hj := h.usedIn_le j
  rw [age] at hage ⊢
  rw [age] at hage
  omega

end Recency
