import Mathlib.Algebra.GroupWithZero.Nat
import Mathlib.Algebra.Group.Basic
import Mathlib.Data.Fin.Basic
import Mathlib.Algebra.Group.Fin.Basic

/-! # Looking for a free slot of a ring

The search begins behind the slot `stop` and goes on as long as the slots are in use and it has not
come back to `stop`. So `stop` itself is what it returns when every slot is in use
(`search_spec`), which is a free slot only if there is one (`search_free_iff`).
-/

namespace RingSearch

variable {m : Nat} [NeZero m]

/-- The search from `slot` on, with the number of rounds after which it gives up. -/
def search (used : Fin m → Bool) (stop : Fin m) : Nat → Fin m → Option (Fin m)
  | 0, _ => none
  | rounds + 1, slot =>
    if used slot = true ∧ slot ≠ stop then search used stop rounds (slot + 1) else some slot

variable {used : Fin m → Bool} {stop : Fin m}

/-- The slot at a distance behind the one after `stop`. -/
def behind (stop : Fin m) (k : Nat) : Fin m := stop + 1 + Fin.ofNat m k

theorem behind_zero : behind stop 0 = stop + 1 := by
  rw [behind, show Fin.ofNat m 0 = 0 from rfl, add_zero]

theorem ofNat_succ (k : Nat) : Fin.ofNat m (k + 1) = 1 + Fin.ofNat m k := by
  apply Fin.ext
  simp only [Fin.val_add, Fin.val_ofNat, Fin.val_one']
  rw [← Nat.add_mod, Nat.add_comm]

theorem behind_succ (k : Nat) : behind stop (k + 1) = behind stop k + 1 := by
  rw [behind, behind, ofNat_succ, add_assoc _ (Fin.ofNat m k), add_comm (Fin.ofNat m k)]

theorem exists_behind (stop n : Fin m) : ∃ k < m, n = behind stop k := by
  refine ⟨(n - (stop + 1)).val, Fin.isLt _, ?_⟩
  rw [behind, Fin.ofNat_val_eq_self, add_sub_cancel]

/-- The search does not come back to `stop` before it has seen all slots. -/
theorem behind_ne {k : Nat} (hk : k + 1 < m) : behind stop k ≠ stop := by
  intro h
  rw [behind, add_assoc, ← ofNat_succ, add_eq_left] at h
  have hval := congrArg Fin.val h
  rw [Fin.val_ofNat, Nat.mod_eq_of_lt hk] at hval
  exact absurd hval (Nat.succ_ne_zero k)

theorem search_behind {k rounds : Nat} (hused : ∀ i < k, used (behind stop i) = true)
    (hk : k < m) (hrounds : m ≤ k + rounds) :
    ∃ n, search used stop rounds (behind stop k) = some n ∧
      (used n = true → n = stop ∧ ∀ i, used i = true) := by
  induction rounds generalizing k with
  | zero => omega
  | succ rounds ih =>
    rw [search]
    by_cases hgo : used (behind stop k) = true ∧ behind stop k ≠ stop
    · have hused' : ∀ i < k + 1, used (behind stop i) = true := fun i hi => by
        rcases Nat.lt_succ_iff_lt_or_eq.mp hi with hlt | rfl
        · exact hused i hlt
        · exact hgo.1
      have hlt : k + 1 < m := by
        by_contra hge
        -- then `stop` is among the slots that have been passed
        obtain ⟨i, hi, hstop⟩ := exists_behind stop stop
        have hik : i ≠ k := by
          rintro rfl
          exact hgo.2 hstop.symm
        exact behind_ne (by omega) hstop.symm
      rw [if_pos hgo, ← behind_succ]
      exact ih hused' hlt (by omega)
    · rw [if_neg hgo]
      refine ⟨_, rfl, fun h => ?_⟩
      have hstop : behind stop k = stop := by
        by_contra hne
        exact hgo ⟨h, hne⟩
      refine ⟨hstop, fun i => ?_⟩
      obtain ⟨j, hj, rfl⟩ := exists_behind stop i
      rcases Nat.lt_or_ge j k with hlt | hge
      · exact hused j hlt
      · have hjk : j = k := by
          by_contra hne
          exact behind_ne (by omega) hstop
        exact hjk ▸ h

/-- A slot that the search returns although it is in use is `stop`, and all are in use. -/
theorem search_spec (used : Fin m → Bool) (stop : Fin m) {rounds : Nat} (hrounds : m ≤ rounds) :
    ∃ n, search used stop rounds (stop + 1) = some n ∧
      (used n = true → n = stop ∧ ∀ i, used i = true) := by
  rw [← behind_zero]
  exact search_behind (fun _ h => absurd h (Nat.not_lt_zero _)) (Nat.pos_of_neZero m) (by omega)

/-- The search ends at a free slot if and only if there is one. -/
theorem search_free_iff {rounds : Nat} (hrounds : m ≤ rounds) {n : Fin m}
    (h : search used stop rounds (stop + 1) = some n) :
    used n = false ↔ ∃ i, used i = false := by
  refine ⟨fun hn => ⟨n, hn⟩, ?_⟩
  rintro ⟨i, hi⟩
  obtain ⟨n', hn', hspec⟩ := search_spec used stop hrounds
  cases h.symm.trans hn'
  rw [← Bool.not_eq_true]
  intro hused
  rw [(hspec hused).2 i] at hi
  cases hi

theorem search_isSome {rounds : Nat} (hrounds : m ≤ rounds) :
    ∃ n, search used stop rounds (stop + 1) = some n := by
  obtain ⟨n, hn, -⟩ := search_spec used stop hrounds
  exact ⟨n, hn⟩

end RingSearch
