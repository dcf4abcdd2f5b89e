import Mathlib.Data.List.Basic

/-! # Gaps between numbered messages

Messages are numbered in the order in which they are sent, and arrive in this order, but not all of
them. A receiver counts how often a number does not follow the one before (`gaps`). It counts no more
than are missing (`add_gaps_le`), but each run of missing numbers once.
-/

namespace SequenceNumbers

/-- How often a number is not the next one. `last` is the one before the first. -/
def gaps (last : Nat) : List Nat → Nat
  | [] => 0
  | n :: ns => (if n = last + 1 then 0 else 1) + gaps n ns

variable {last lo hi n : Nat} {ns : List Nat}

theorem gaps_concat : gaps last (ns ++ [n]) =
    gaps last ns + if n = ns.getLastD last + 1 then 0 else 1 := by
  induction ns generalizing last with
  | nil => exact Nat.add_comm _ 0
  | cons m ns ih => rw [List.cons_append, gaps, ih, gaps, List.getLastD_cons, Nat.add_assoc]

/-- Increasing numbers are no more than there is room for. -/
theorem length_le (hlt : ns.Pairwise (· < ·)) (hns : ∀ n ∈ ns, lo ≤ n ∧ n < hi) :
    ns.length ≤ hi - lo := by
  induction ns generalizing lo with
  | nil => exact Nat.zero_le _
  | cons m ns ih =>
    obtain ⟨hlo, hhi⟩ := hns m List.mem_cons_self
    have hrest := ih (List.pairwise_cons.mp hlt).2 fun n hn =>
      ⟨(List.pairwise_cons.mp hlt).1 n hn, (hns n (List.mem_cons_of_mem _ hn)).2⟩
    rw [List.length_cons]
    omega

/-- Each gap has a number that is missing. -/
theorem add_gaps_le (hlt : (last :: ns).Pairwise (· < ·)) :
    last + gaps last ns + ns.length ≤ ns.getLastD last := by
  induction ns generalizing last with
  | nil => exact Nat.le_refl _
  | cons m ns ih =>
    have hrest := ih (List.pairwise_cons.mp hlt).2
    have hm := (List.pairwise_cons.mp hlt).1 m List.mem_cons_self
    rw [gaps, List.length_cons, List.getLastD_cons]
    split <;> omega

/-- If the first number may be `last` itself, this is one gap more. -/
theorem gaps_le (hlt : ns.Pairwise (· < ·)) (hlast : ∀ n ∈ ns, last ≤ n) :
    last + gaps last ns + ns.length ≤ ns.getLastD last + 2 := by
  cases ns with
  | nil => exact Nat.le_add_right _ 2
  | cons m ns =>
    have hrest := add_gaps_le hlt
    have hm := hlast m List.mem_cons_self
    rw [gaps, List.length_cons, List.getLastD_cons]
    split <;> omega

end SequenceNumbers
