import CyPhOS.Common.Exec
import Mathlib.Logic.Function.Basic

/-! # The pool of micro stacks

There are as many stacks as CPUs. A stack pointer is modelled by the index of its stack in
`mStacks`; the address computed from it is never null. `getFreeStack` searches the flags from
`mUsedPointer` on, once around, and finds a free stack if there is one (`getFreeStack_spec`).
-/

namespace CyPhOS

/-- `mUsedStacks` lies in zeroed storage. -/
structure StackPool where
  mUsedStacks : Nat → Bool
  mUsedPointer : Nat

namespace StackPool

def new : StackPool := { mUsedStacks := fun _ => false, mUsedPointer := 0 }

/-- The `do … while` loop: the stack it finds, if any, and where it leaves `mUsedPointer`. -/
def search (cStackPoolSize lastPointer : Nat) (mUsedStacks : Nat → Bool) :
    Nat → Nat → Exec (Option Nat × Nat)
  | 0, _ => .error .hang
  | fuel + 1, mUsedPointer =>
    if mUsedStacks mUsedPointer = false then .ok (some mUsedPointer, mUsedPointer)
    else if (mUsedPointer + 1) % cStackPoolSize ≠ lastPointer then
      search cStackPoolSize lastPointer mUsedStacks fuel ((mUsedPointer + 1) % cStackPoolSize)
    else .ok (none, (mUsedPointer + 1) % cStackPoolSize)

def getFreeStack (cStackPoolSize : Nat) (pool : StackPool) : Exec (Option Nat × StackPool) := do
  match ← search cStackPoolSize pool.mUsedPointer pool.mUsedStacks cStackPoolSize
      pool.mUsedPointer with
  | (some sp, mUsedPointer) =>
    pure (some sp, { mUsedStacks := Function.update pool.mUsedStacks sp true, mUsedPointer })
  | (none, mUsedPointer) => pure (none, { pool with mUsedPointer })

/-- A task that has a stack keeps it, any other asks for one. -/
def provideStack (cStackPoolSize : Nat) (pool : StackPool) (pStackpointer : Option Nat) :
    Exec (Option Nat × StackPool) :=
  match pStackpointer with
  | none => pool.getFreeStack cStackPoolSize
  | some sp => .ok (some sp, pool)

/-- The loop finds the stack at an index of the pool; a pointer to none is only reported. -/
def setStackFree (cStackPoolSize : Nat) (pool : StackPool) (stackpointer : Nat) : StackPool :=
  if stackpointer < cStackPoolSize then
    { pool with mUsedStacks := Function.update pool.mUsedStacks stackpointer false }
  else pool

variable {n last : Nat} {used : Nat → Bool}

/-- The index `k` steps ahead on the ring. -/
theorem ring_index (hlast : last < n) {k : Nat} (hk : k ≤ n) :
    (last + k) % n = if last + k < n then last + k else last + k - n := by
  split
  · next h => exact Nat.mod_eq_of_lt h
  · next h => rw [Nat.mod_eq_sub_mod (by omega), Nat.mod_eq_of_lt (by omega)]

theorem ring_index_eq_iff (hlast : last < n) {k : Nat} (hk : k ≤ n) (hpos : 0 < k) :
    (last + k) % n = last ↔ k = n := by
  rw [ring_index hlast hk]
  split <;> omega

/-- Entered `k` steps behind `last`, the loop looks at the rest of the ring. -/
theorem search_spec (hlast : last < n) {k fuel : Nat} (hk : k + fuel = n) (hfuel : 0 < fuel) :
    (∃ i < n, search n last used fuel ((last + k) % n) = .ok (some i, i) ∧ used i = false) ∨
      search n last used fuel ((last + k) % n) = .ok (none, last) ∧
        ∀ j, k ≤ j → j < n → used ((last + j) % n) = true := by
  induction fuel generalizing k with
  | zero => omega
  | succ fuel ih =>
    have hn : 0 < n := by omega
    cases hused : used ((last + k) % n) with
    | false => exact .inl ⟨(last + k) % n, Nat.mod_lt _ hn, by simp [search, hused], hused⟩
    | true =>
      have hsucc : ((last + k) % n + 1) % n = (last + (k + 1)) % n := by
        rw [Nat.mod_add_mod, Nat.add_assoc]
      have hwrap := ring_index_eq_iff hlast (show k + 1 ≤ n by omega) (Nat.succ_pos k)
      have hsplit : ∀ j, k ≤ j → j = k ∨ k + 1 ≤ j := fun j hj => by omega
      by_cases hend : k + 1 = n
      · refine .inr ⟨by simp [search, hused, hsucc, hwrap.mpr hend], fun j hj hjn => ?_⟩
        obtain rfl : j = k := by omega
        exact hused
      · have hstep : search n last used (fuel + 1) ((last + k) % n) =
            search n last used fuel ((last + (k + 1)) % n) := by
          have hne : (last + (k + 1)) % n ≠ last := fun e => hend (hwrap.mp e)
          simp [search, hused, hsucc, hne]
        rw [hstep]
        refine (ih (k := k + 1) (by omega) (by omega)).imp_right fun h => ⟨h.1, fun j hj hjn => ?_⟩
        rcases hsplit j hj with rfl | hj
        · exact hused
        · exact h.2 j hj hjn

/-- A free stack is found, and only its flag is set. -/
theorem getFreeStack_spec {pool : StackPool} (hptr : pool.mUsedPointer < n)
    (hfree : ∃ i < n, pool.mUsedStacks i = false) :
    ∃ i < n, pool.mUsedStacks i = false ∧ getFreeStack n pool =
      .ok (some i, { mUsedStacks := Function.update pool.mUsedStacks i true, mUsedPointer := i }) := by
  have hzero : (pool.mUsedPointer + 0) % n = pool.mUsedPointer := Nat.mod_eq_of_lt hptr
  have hsearch := @search_spec n _ pool.mUsedStacks hptr 0 n (Nat.zero_add n) (by omega)
  rcases hsearch with ⟨i, hi, hsearch, hused⟩ | ⟨-, hall⟩
  · rw [hzero] at hsearch
    exact ⟨i, hi, hused, by simp [getFreeStack, hsearch]⟩
  · obtain ⟨i, hi, hused⟩ := hfree
    -- the index `i` is on the way once around
    have hindex : ∃ j < n, (pool.mUsedPointer + j) % n = i := by
      by_cases hle : pool.mUsedPointer ≤ i
      · refine ⟨i - pool.mUsedPointer, by omega, ?_⟩
        rw [ring_index hptr (by omega), if_pos (by omega)]
        omega
      · refine ⟨i + n - pool.mUsedPointer, by omega, ?_⟩
        rw [ring_index hptr (by omega), if_neg (by omega)]
        omega
    obtain ⟨j, hj, rfl⟩ := hindex
    rw [hall j (Nat.zero_le j) hj] at hused
    cases hused

end StackPool

end CyPhOS
