import Mathlib.Data.BitVec
import Mathlib.Logic.Function.Basic

/-! # Saving registers on a stack

A machine has registers and a memory of words of `size` bytes. All accesses are aligned, so that a word
is known by its address. The stack grows downwards, and the stack pointer points to the word that was
pushed last.

`pushWords` pushes words one after the other, and `pushWords_mem` says where they are then. If the stack
pointer and the words are left alone, registers that are popped in the opposite order get the words
that were pushed for them (`regs_pops_reverse`).
-/

namespace RegisterStack

variable {R : Type*} {w : Nat}

structure Machine (R : Type*) (w : Nat) where
  regs : R → BitVec w
  mem : BitVec w → BitVec w

/-! ## Addresses -/

/-- The address of the word that lies `i` words below. -/
def below (size : Nat) (a : BitVec w) (i : Nat) : BitVec w := a - BitVec.ofNat w (size * i)

/-- The address of the word that lies `i` words above. -/
def above (size : Nat) (a : BitVec w) (i : Nat) : BitVec w := a + BitVec.ofNat w (size * i)

section
variable {size i j : Nat} {a : BitVec w}

@[simp] theorem below_zero : below size a 0 = a := by simp [below]

@[simp] theorem above_zero : above size a 0 = a := by simp [above]

theorem below_below : below size (below size a i) j = below size a (i + j) := by
  rw [below, below, below, Nat.mul_add, BitVec.ofNat_add, BitVec.sub_sub]

theorem above_below (h : j ≤ i) : above size (below size a i) j = below size a (i - j) := by
  obtain ⟨k, rfl⟩ := Nat.exists_eq_add_of_le' h
  rw [Nat.add_sub_cancel, ← below_below, above, below, BitVec.sub_add_cancel]

/-- The words of a stack that does not wrap around lie at different addresses. -/
theorem below_inj (hsize : 0 < size) (hi : size * i < 2 ^ w) (hj : size * j < 2 ^ w) :
    below size a i = below size a j ↔ i = j := by
  constructor
  · intro h
    have heq : BitVec.ofNat w (size * i) = BitVec.ofNat w (size * j) := by
      rw [below, below] at h
      exact sub_right_injective h
    have hnat := congrArg BitVec.toNat heq
    rw [BitVec.toNat_ofNat, BitVec.toNat_ofNat, Nat.mod_eq_of_lt hi, Nat.mod_eq_of_lt hj] at hnat
    exact Nat.eq_of_mul_eq_mul_left hsize hnat
  · rintro rfl
    rfl

end

/-! ## Pushing and popping -/

section
variable [DecidableEq R] (size : Nat) (sp : R)

def Machine.set (m : Machine R w) (r : R) (v : BitVec w) : Machine R w :=
  { m with regs := Function.update m.regs r v }

def push (m : Machine R w) (v : BitVec w) : Machine R w where
  regs := Function.update m.regs sp (below size (m.regs sp) 1)
  mem := Function.update m.mem (below size (m.regs sp) 1) v

/-- The register gets the word that was pushed last. -/
def pop (m : Machine R w) (r : R) : Machine R w where
  regs := Function.update (Function.update m.regs r (m.mem (m.regs sp))) sp (above size (m.regs sp) 1)
  mem := m.mem

def pushWords (m : Machine R w) (vs : List (BitVec w)) : Machine R w := vs.foldl (push size sp) m

/-- The registers are pushed one after the other. -/
def pushes (m : Machine R w) (rs : List R) : Machine R w :=
  rs.foldl (fun m r => push size sp m (m.regs r)) m

def pops (m : Machine R w) (rs : List R) : Machine R w := rs.foldl (pop size sp) m

variable {size sp} {m : Machine R w} {r : R} {rs : List R} {v a : BitVec w} {vs : List (BitVec w)}

@[simp] theorem Machine.set_self : (m.set r v).regs r = v := Function.update_self ..

theorem Machine.set_of_ne {r' : R} (h : r' ≠ r) : (m.set r v).regs r' = m.regs r' :=
  Function.update_of_ne h ..

@[simp] theorem Machine.set_mem : (m.set r v).mem = m.mem := rfl

theorem pushWords_cons :
    pushWords size sp m (v :: vs) = pushWords size sp (push size sp m v) vs := rfl

theorem pushWords_append {vs' : List (BitVec w)} :
    pushWords size sp m (vs ++ vs') = pushWords size sp (pushWords size sp m vs) vs' :=
  List.foldl_append

theorem pops_append {rs' : List R} :
    pops size sp m (rs ++ rs') = pops size sp (pops size sp m rs) rs' := List.foldl_append

@[simp] theorem push_sp : (push size sp m v).regs sp = below size (m.regs sp) 1 :=
  Function.update_self ..

theorem push_of_ne (h : r ≠ sp) : (push size sp m v).regs r = m.regs r := Function.update_of_ne h ..

@[simp] theorem push_mem : (push size sp m v).mem (below size (m.regs sp) 1) = v :=
  Function.update_self ..

@[simp] theorem pop_sp : (pop size sp m r).regs sp = above size (m.regs sp) 1 :=
  Function.update_self ..

theorem pop_self (h : r ≠ sp) : (pop size sp m r).regs r = m.mem (m.regs sp) :=
  (Function.update_of_ne h ..).trans (Function.update_self ..)

theorem pop_of_ne {r' : R} (hsp : r' ≠ sp) (h : r' ≠ r) : (pop size sp m r).regs r' = m.regs r' :=
  (Function.update_of_ne hsp ..).trans (Function.update_of_ne h ..)

@[simp] theorem pop_mem : (pop size sp m r).mem = m.mem := rfl

@[simp] theorem pops_mem : (pops size sp m rs).mem = m.mem := by
  induction rs generalizing m with
  | nil => rfl
  | cons r rs ih => exact ih

theorem pushWords_sp : (pushWords size sp m vs).regs sp = below size (m.regs sp) vs.length := by
  induction vs generalizing m with
  | nil => exact below_zero.symm
  | cons v vs ih => rw [pushWords_cons, ih, push_sp, below_below, List.length_cons, Nat.add_comm]

theorem pushWords_of_ne (h : r ≠ sp) : (pushWords size sp m vs).regs r = m.regs r := by
  induction vs generalizing m with
  | nil => rfl
  | cons v vs ih => rw [pushWords_cons, ih, push_of_ne h]

/-- What is pushed and where does not depend on the other registers. -/
theorem pushWords_congr {m' : Machine R w} (hsp : m'.regs sp = m.regs sp) (hmem : m'.mem = m.mem) :
    (pushWords size sp m' vs).mem = (pushWords size sp m vs).mem := by
  induction vs generalizing m m' with
  | nil => exact hmem
  | cons v vs ih =>
    rw [pushWords_cons, pushWords_cons]
    refine ih ?_ ?_
    · rw [push_sp, push_sp, hsp]
    · rw [push, push, hsp, hmem]

/-- The other registers do not change meanwhile. -/
theorem pushes_eq (hsp : sp ∉ rs) : pushes size sp m rs = pushWords size sp m (rs.map m.regs) := by
  suffices hall : ∀ m' : Machine R w, (∀ r ≠ sp, m'.regs r = m.regs r) →
      pushes size sp m' rs = pushWords size sp m' (rs.map m.regs) from hall m fun _ _ => rfl
  induction rs with
  | nil => exact fun _ _ => rfl
  | cons r rs ih =>
    rw [List.mem_cons, not_or] at hsp
    intro m' hregs
    change pushes size sp (push size sp m' (m'.regs r)) rs = _
    rw [hregs r (Ne.symm hsp.1)]
    exact ih hsp.2 _ fun r' hr' => (push_of_ne hr').trans (hregs r' hr')

/-- Only the words that are pushed change. -/
theorem pushWords_mem_of_ne (h : ∀ i < vs.length, a ≠ below size (m.regs sp) (i + 1)) :
    (pushWords size sp m vs).mem a = m.mem a := by
  induction vs generalizing m with
  | nil => rfl
  | cons v vs ih =>
    rw [pushWords_cons, ih fun i hi => ?_]
    · exact Function.update_of_ne (h 0 (Nat.succ_pos _)) ..
    · rw [push_sp, below_below, Nat.add_comm]
      exact h (i + 1) (Nat.succ_lt_succ hi)

theorem pushWords_mem (hsize : 0 < size) (hlen : size * vs.length < 2 ^ w) {i : Nat}
    (hi : i < vs.length) : (pushWords size sp m vs).mem (below size (m.regs sp) (i + 1)) = vs[i] := by
  induction vs generalizing m i with
  | nil => exact absurd hi (Nat.not_lt_zero i)
  | cons v vs ih =>
    rw [List.length_cons] at hlen hi
    rw [pushWords_cons]
    have hlt : ∀ j ≤ vs.length + 1, size * j < 2 ^ w :=
      fun j hj => (Nat.mul_le_mul_left size hj).trans_lt hlen
    cases i with
    | zero =>
      rw [pushWords_mem_of_ne fun j hj => ?_]
      · exact push_mem
      · rw [push_sp, below_below, Ne, below_inj hsize (hlt _ (by omega)) (hlt _ (by omega))]
        omega
    | succ i =>
      have hlater := ih (m := push size sp m v) (hlt _ (Nat.le_succ _)) (Nat.lt_of_succ_lt_succ hi)
      rw [push_sp, below_below, Nat.add_comm] at hlater
      exact hlater

/-- Popped in the opposite order, the registers get the words they had when they were pushed. -/
theorem regs_pops_reverse {old : R → BitVec w} (hsp : sp ∉ rs)
    (hregs : m.regs sp = below size a rs.length)
    (hmem : ∀ i (hi : i < rs.length), m.mem (below size a (i + 1)) = old rs[i]) (r : R) :
    (pops size sp m rs.reverse).regs r = if r = sp then a else if r ∈ rs then old r else m.regs r := by
  induction rs generalizing a r with
  | nil =>
    rw [List.length_nil, below_zero] at hregs
    rw [List.reverse_nil, if_neg List.not_mem_nil]
    split
    · next heq => exact heq ▸ hregs
    · rfl
  | cons r' rs ih =>
    rw [List.mem_cons, not_or] at hsp
    have hlater := ih (a := below size a 1) hsp.2
      (by rw [hregs, below_below, List.length_cons, Nat.add_comm]) fun i hi => by
        rw [below_below, Nat.add_comm]
        exact hmem (i + 1) (Nat.succ_lt_succ hi)
    have hbefore := hlater sp
    rw [if_pos rfl] at hbefore
    have hfirst := hmem 0 (Nat.succ_pos _)
    rw [Nat.zero_add, List.getElem_cons_zero] at hfirst
    rw [List.reverse_cons, pops_append]
    change (pop size sp (pops size sp m rs.reverse) r').regs r = _
    rcases eq_or_ne r sp with rfl | hr
    · rw [if_pos rfl, pop_sp, hbefore, above_below le_rfl, Nat.sub_self, below_zero]
    rw [if_neg hr]
    rcases eq_or_ne r r' with rfl | hne
    · rw [if_pos List.mem_cons_self, pop_self hr, hbefore, pops_mem, hfirst]
    · rw [pop_of_ne hr hne, hlater r, if_neg hr]
      simp only [List.mem_cons, hne, false_or]

end

end RegisterStack
