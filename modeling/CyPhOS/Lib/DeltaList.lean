import Mathlib.Algebra.GroupWithZero.Nat
import CyPhOS.Lib.StableOrder

/-! # Delta lists

A delta list holds entries with the time each is due after the one before, so that a clock tick
only counts down the first. `due` turns the differences into times. Under it insertion is insertion
into a sorted list behind equal times (`due_insert`), removal is removal (`due_remove`), and the
entries that a tick expires are the ones due at time one (`due_tick`).

`Schedules D P` compares such a list of times with a list `P` that is kept in the order of
insertion: for every time the two hold the same entries in the same order. So what expires together
expires in the order of insertion, whatever was inserted and removed in between.
-/

namespace DeltaList

variable {α : Type*} {a : α} {r s t : Nat} {l : List (α × Nat)}

/-- The entries with the times they are due, when the list starts at `s`. -/
def due : Nat → List (α × Nat) → List (α × Nat)
  | _, [] => []
  | s, (a, d) :: l => (a, s + d) :: due (s + d) l

/-- Insert `a` with time `r` behind the entries due at the same time. -/
def insert (a : α) : Nat → List (α × Nat) → List (α × Nat)
  | r, [] => [(a, r)]
  | r, (b, d) :: l =>
    if r < d then (a, r) :: (b, d - r) :: l else (b, d) :: insert a (r - d) l

/-- Add a difference to that of the first entry. -/
def carry (d : Nat) : List (α × Nat) → List (α × Nat)
  | [] => []
  | (b, e) :: l => (b, e + d) :: l

/-- Remove `a`; the next entry takes over its difference. -/
def remove [DecidableEq α] (a : α) : List (α × Nat) → List (α × Nat)
  | [] => []
  | (b, d) :: l => if b = a then carry d l else (b, d) :: remove a l

/-- Count down the first entry. -/
def countDown : List (α × Nat) → List (α × Nat)
  | [] => []
  | (a, d) :: l => (a, d - 1) :: l

/-! ## Times -/

@[simp] theorem due_nil : due s ([] : List (α × Nat)) = [] := rfl

@[simp] theorem due_cons {d : Nat} : due s ((a, d) :: l) = (a, s + d) :: due (s + d) l := rfl

theorem due_map_fst : (due s l).map Prod.fst = l.map Prod.fst := by
  induction l generalizing s with
  | nil => rfl
  | cons x l ih => simp [due, ih]

theorem due_add (n : Nat) : due (s + n) l = (due s l).map fun x => (x.1, x.2 + n) := by
  induction l generalizing s with
  | nil => rfl
  | cons x l ih => simp [due, ← ih, Nat.add_right_comm]

theorem due_carry (d : Nat) : due s (carry d l) = due (s + d) l := by
  cases l with
  | nil => rfl
  | cons x l =>
    have hsum : s + (x.2 + d) = s + d + x.2 := by omega
    rw [carry, due_cons, due, hsum]

theorem le_of_mem_due {x : α × Nat} (h : x ∈ due s l) : s ≤ x.2 := by
  induction l generalizing s with
  | nil => cases h
  | cons y l ih =>
    rcases List.mem_cons.mp h with rfl | h
    · exact Nat.le_add_right s _
    · exact (Nat.le_add_right s _).trans (ih h)

/-- The sum of the differences is the time of the last entry. -/
theorem sum_lt_of_due_lt {b : Nat} (hs : s < b) (h : ∀ x ∈ due s l, x.2 < b) :
    s + (l.map Prod.snd).sum < b := by
  induction l generalizing s with
  | nil => simpa using hs
  | cons x l ih =>
    have hx := h (x.1, s + x.2) (List.mem_cons_self ..)
    have := ih hx fun y hy => h y (List.mem_cons_of_mem _ hy)
    rw [List.map_cons, List.sum_cons]
    omega

/-! ## The operations under `due` -/

theorem due_insert :
    due s (insert a r l) = (due s l).orderedInsert (fun x y => x.2 < y.2) (a, s + r) := by
  induction l generalizing s r with
  | nil => rfl
  | cons x l ih =>
    obtain ⟨b, d⟩ := x
    rw [insert, due_cons, List.orderedInsert_cons]
    rcases Nat.lt_or_ge r d with h | h
    · have hsum : s + r + (d - r) = s + d := by omega
      rw [if_pos h, if_pos (Nat.add_lt_add_left h s), due_cons, due_cons, hsum]
    · have hsum : s + d + (r - d) = s + r := by omega
      rw [if_neg h.not_gt, if_neg (by simpa using h), due_cons, ih, hsum]

/-- Where the insertion stops. -/
theorem insert_append {b : α} {d : Nat} {m : List (α × Nat)} (hl : (l.map Prod.snd).sum ≤ r)
    (hr : r < (l.map Prod.snd).sum + d) :
    insert a r (l ++ (b, d) :: m) =
      l ++ (a, r - (l.map Prod.snd).sum) :: (b, d - (r - (l.map Prod.snd).sum)) :: m := by
  induction l generalizing r with
  | nil => simp_all [insert]
  | cons x l ih =>
    obtain ⟨c, e⟩ := x
    rw [List.map_cons, List.sum_cons] at *
    rw [List.cons_append, insert, if_neg (by omega), ih (by omega) (by omega), Nat.sub_sub]
    rfl

theorem insert_of_sum_le (hl : (l.map Prod.snd).sum ≤ r) :
    insert a r l = l ++ [(a, r - (l.map Prod.snd).sum)] := by
  induction l generalizing r with
  | nil => rfl
  | cons x l ih =>
    obtain ⟨c, e⟩ := x
    rw [List.map_cons, List.sum_cons] at *
    rw [insert, if_neg (by omega), ih (by omega), Nat.sub_sub]
    rfl

theorem due_remove [DecidableEq α] (h : (l.map Prod.fst).Nodup) :
    due s (remove a l) = (due s l).filter fun x => x.1 ≠ a := by
  induction l generalizing s with
  | nil => rfl
  | cons x l ih =>
    obtain ⟨b, d⟩ := x
    obtain ⟨hb, hl⟩ := List.nodup_cons.mp h
    rw [remove, due_cons]
    rcases eq_or_ne b a with rfl | hne
    · -- no other entry is the removed one
      have hrest : (due (s + d) l).filter (fun x => x.1 ≠ b) = due (s + d) l := by
        rw [List.filter_eq_self]
        intro x hx
        have hmem : x.1 ∈ l.map Prod.fst := by
          rw [← due_map_fst (s := s + d)]
          exact List.mem_map_of_mem hx
        simpa using ne_of_mem_of_not_mem hmem hb
      rw [if_pos rfl, List.filter_cons_of_neg (by simp), hrest, due_carry]
    · rw [if_neg hne, List.filter_cons_of_pos (by simpa using hne), due_cons, ih hl]

/-- What removal does to the entry and the one behind it. -/
theorem remove_append [DecidableEq α] {d : Nat} {m : List (α × Nat)} (h : a ∉ l.map Prod.fst) :
    remove a (l ++ (a, d) :: m) = l ++ carry d m := by
  induction l with
  | nil => simp [remove]
  | cons x l ih =>
    obtain ⟨b, e⟩ := x
    obtain ⟨hb, hl⟩ : a ≠ b ∧ a ∉ l.map Prod.fst := by simpa using h
    rw [List.cons_append, remove, if_neg hb.symm, ih hl]
    rfl

theorem due_countDown (h : ∀ x ∈ due 0 l, 1 ≤ x.2) :
    due 0 (countDown l) = (due 0 l).map fun x => (x.1, x.2 - 1) := by
  cases l with
  | nil => rfl
  | cons x l =>
    obtain ⟨a, d⟩ := x
    have hd : 1 ≤ 0 + d := h (a, 0 + d) (List.mem_cons_self ..)
    obtain ⟨d, rfl⟩ := Nat.exists_eq_add_of_le' (Nat.zero_add d ▸ hd)
    have hrest : (due (d + 1) l).map (fun x => (x.1, x.2 - 1)) = due d l := by
      rw [due_add, List.map_map]
      exact List.map_id _
    rw [countDown, due_cons, due_cons, List.map_cons, Nat.zero_add, Nat.zero_add, hrest]
    rfl

/-- The entries without a difference at the front are those due at once. -/
theorem due_takeWhile :
    (l.takeWhile fun x => x.2 = 0).map Prod.fst =
      ((due 0 l).filter fun x => x.2 = 0).map Prod.fst := by
  induction l with
  | nil => rfl
  | cons x l ih =>
    obtain ⟨a, d⟩ := x
    rcases Nat.eq_zero_or_pos d with rfl | hd
    · simp [due, ih]
    · have hnone : ((due 0 ((a, d) :: l)).filter fun x => x.2 = 0) = [] := by
        rw [List.filter_eq_nil_iff]
        intro x hx
        rcases List.mem_cons.mp hx with rfl | hx
        · simpa using hd.ne'
        · have := le_of_mem_due hx
          simp only [decide_eq_true_eq]
          omega
      rw [hnone, List.takeWhile_cons_of_neg (by simpa using hd.ne')]

theorem due_dropWhile :
    due 0 (l.dropWhile fun x => x.2 = 0) = (due 0 l).filter fun x => x.2 ≠ 0 := by
  induction l with
  | nil => rfl
  | cons x l ih =>
    obtain ⟨a, d⟩ := x
    rcases Nat.eq_zero_or_pos d with rfl | hd
    · simpa [due] using ih
    · have hall : ((due 0 ((a, d) :: l)).filter fun x => x.2 ≠ 0) = due 0 ((a, d) :: l) := by
        rw [List.filter_eq_self]
        intro x hx
        rcases List.mem_cons.mp hx with rfl | hx
        · simpa using hd.ne'
        · have := le_of_mem_due hx
          simp only [decide_eq_true_eq]
          omega
      rw [hall, List.dropWhile_cons_of_neg (by simpa using hd.ne')]

/-! ## Schedules -/

/-- `D` holds the entries of `P` in the order of their times, and entries of one time in the order
of `P`. -/
structure Schedules (D P : List (α × Nat)) : Prop where
  sorted : D.Pairwise fun x y => x.2 ≤ y.2
  filter_eq : ∀ t, (D.filter fun x => x.2 = t) = P.filter fun x => x.2 = t

namespace Schedules

variable {D P : List (α × Nat)} {x : α × Nat}

theorem nil : Schedules ([] : List (α × Nat)) [] := ⟨List.Pairwise.nil, fun _ => rfl⟩

theorem sorts (h : Schedules D P) : StableOrder.Sorts Prod.snd D P := ⟨h.sorted, h.filter_eq⟩

theorem mem_iff (h : Schedules D P) : x ∈ D ↔ x ∈ P := h.sorts.mem_iff

/-- An entry inserted behind those of its time comes last in the order of insertion. -/
theorem insert (h : Schedules D P) :
    Schedules (D.orderedInsert (fun x y => x.2 < y.2) x) (P ++ [x]) :=
  ⟨(h.sorts.insert x).sorted, (h.sorts.insert x).filter_eq⟩

theorem filter (h : Schedules D P) (p : α × Nat → Bool) :
    Schedules (D.filter p) (P.filter p) := by
  refine ⟨h.sorted.filter p, fun t => ?_⟩
  rw [List.filter_comm, h.filter_eq, List.filter_comm]

/-- One tick later. -/
theorem pred (h : Schedules D P) (hpos : ∀ x ∈ P, 1 ≤ x.2) :
    Schedules (D.map fun x => (x.1, x.2 - 1)) (P.map fun x => (x.1, x.2 - 1)) := by
  have hmap : ∀ {l : List (α × Nat)}, (∀ x ∈ l, 1 ≤ x.2) → ∀ t,
      ((l.map fun x => (x.1, x.2 - 1)).filter fun x => x.2 = t) =
        (l.filter fun x => x.2 = t + 1).map fun x => (x.1, x.2 - 1) := by
    intro l hl t
    rw [List.filter_map]
    congr 1
    refine List.filter_congr fun x hx => ?_
    have := hl x hx
    simp only [Function.comp, decide_eq_decide]
    omega
  refine ⟨?_, fun t => ?_⟩
  · rw [List.pairwise_map]
    exact h.sorted.imp fun hle => Nat.sub_le_sub_right hle 1
  · rw [hmap hpos, hmap fun x hx => hpos x (h.mem_iff.mp hx), h.filter_eq]

end Schedules

end DeltaList
