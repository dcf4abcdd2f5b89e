import Mathlib.Algebra.Group.Nat.Defs
import Mathlib.Data.Nat.Basic
import Mathlib.Logic.Function.Iterate
import Mathlib.Tactic.Common

/-! # Tables of tables

A radix table translates a number in steps: each level takes the next bits of the number as an index
into a table and finds there the table of the next level. The tables of one level lie one behind
the other in memory, so that a level is one array, and an entry of the level above points to its
part of it. `LinkedTo` says so of two levels, and `LinkedTo.descend` that a step through them leads
from the entry whose index is the number without its low bits to the entry with fewer bits dropped.

`fill` and `fillFrom` are the loops that write the entries of an array, with a counter and with
running pointers, and `changeEntries` is the loop that changes some of them in place.
-/

namespace RadixTable

variable {β ν : Type*} {size base first n : Nat} {m : Nat → β} {f : Nat → β}

/-! ## Filling an array -/

/-- `for (i = first; i < first + n; i++) table[i] = f(i)`, with entries of `size` bytes. -/
def fill (size base : Nat) (f : Nat → β) : Nat → Nat → (Nat → β) → (Nat → β)
  | _, 0, m => m
  | first, n + 1, m =>
    fill size base f (first + 1) n (Function.update m (base + size * first) (f first))

/-- The loop that moves a pointer and a value instead of counting. -/
def fillFrom (size : Nat) (next : ν → ν) (g : ν → β) :
    Nat → Nat → ν → (Nat → β) → (Nat → β)
  | 0, _, _, m => m
  | n + 1, entry, value, m =>
    fillFrom size next g n (entry + size) (next value) (Function.update m entry (g value))

theorem fill_of_ne {a : Nat} (h : ∀ i, first ≤ i → i < first + n → a ≠ base + size * i) :
    fill size base f first n m a = m a := by
  induction n generalizing first m with
  | zero => rfl
  | succ n ih =>
    rw [fill, ih fun i hi hi' => h i (by omega) (by omega),
      Function.update_of_ne (h first (Nat.le_refl _) (by omega))]

theorem fill_apply (hsize : 0 < size) {i : Nat} (hi : first ≤ i) (hi' : i < first + n) :
    fill size base f first n m (base + size * i) = f i := by
  induction n generalizing first m with
  | zero => omega
  | succ n ih =>
    rw [fill]
    rcases Nat.eq_or_lt_of_le hi with rfl | hlt
    · rw [fill_of_ne fun j hj _ heq => ?_, Function.update_self]
      have hij := Nat.eq_of_mul_eq_mul_left hsize (Nat.add_left_cancel heq)
      omega
    · exact ih hlt (by omega)

/-- An array that is filled before or behind an address does not reach it. -/
theorem fill_frame {a : Nat} (h : a < base + size * first ∨ base + size * (first + n) ≤ a)
    (hsize : 0 < size) : fill size base f first n m a = m a := by
  refine fill_of_ne fun i hi hi' heq => ?_
  have hfirst := Nat.mul_le_mul_left size hi
  have hlast := Nat.mul_le_mul_left size (Nat.succ_le_of_lt hi')
  rw [Nat.succ_eq_add_one, Nat.mul_add] at hlast
  omega

theorem fillFrom_iterate {next : ν → ν} {g : ν → β} {value : ν} :
    fillFrom size next g n (base + size * first) (next^[first] value) m =
      fill size base (fun i => g (next^[i] value)) first n m := by
  induction n generalizing first m with
  | zero => rfl
  | succ n ih =>
    rw [fillFrom, fill, ← ih, Function.iterate_succ_apply', Nat.mul_add, Nat.mul_one, Nat.add_assoc]

theorem fillFrom_eq_fill {next : ν → ν} {g : ν → β} {value : ν} :
    fillFrom size next g n base value m = fill size base (fun i => g (next^[i] value)) 0 n m := by
  rw [← fillFrom_iterate, Nat.mul_zero, Nat.add_zero, Function.iterate_zero_apply]

/-! ## Changing entries -/

/-- `n` entries from `first` on are changed, one after the other. -/
def changeEntries (size base : Nat) (g : β → β) : Nat → Nat → (Nat → β) → (Nat → β)
  | _, 0, m => m
  | first, n + 1, m =>
    changeEntries size base g (first + 1) n
      (Function.update m (base + size * first) (g (m (base + size * first))))

section
variable {g : β → β}

theorem changeEntries_of_ne {a : Nat}
    (h : ∀ i, first ≤ i → i < first + n → a ≠ base + size * i) :
    changeEntries size base g first n m a = m a := by
  induction n generalizing first m with
  | zero => rfl
  | succ n ih =>
    rw [changeEntries, ih fun i hi hi' => h i (by omega) (by omega),
      Function.update_of_ne (h first (Nat.le_refl _) (by omega))]

theorem changeEntries_apply (hsize : 0 < size) {i : Nat} (hi : first ≤ i) (hi' : i < first + n) :
    changeEntries size base g first n m (base + size * i) = g (m (base + size * i)) := by
  have hinj : ∀ j k, base + size * j = base + size * k → j = k := fun j k h =>
    Nat.eq_of_mul_eq_mul_left hsize (Nat.add_left_cancel h)
  induction n generalizing first m with
  | zero => omega
  | succ n ih =>
    rw [changeEntries]
    rcases Nat.eq_or_lt_of_le hi with rfl | hlt
    · rw [changeEntries_of_ne fun j hj _ heq => ?_, Function.update_self]
      have hij := hinj _ _ heq
      omega
    · rw [ih hlt (by omega), Function.update_of_ne fun heq => ?_]
      have hij := hinj _ _ heq
      omega

theorem changeEntries_notMem (hsize : 0 < size) {i : Nat} (h : i < first ∨ first + n ≤ i) :
    changeEntries size base g first n m (base + size * i) = m (base + size * i) := by
  refine changeEntries_of_ne fun j hj hj' heq => ?_
  have hij := Nat.eq_of_mul_eq_mul_left hsize (Nat.add_left_cancel heq)
  omega

/-- The entries in `S` are changed, and nothing else. -/
def ChangesExactly (size base : Nat) (g : β → β) (S : Nat → Prop) (m m' : Nat → β) : Prop :=
  (∀ i, S i → m' (base + size * i) = g (m (base + size * i))) ∧
    ∀ a, (∀ i, S i → a ≠ base + size * i) → m' a = m a

/-- A loop that changes other entries than it should is right exactly if the change is none to
each entry that is in one of the two sets only. -/
theorem changesExactly_changeEntries_iff (hsize : 0 < size) {S : Nat → Prop} :
    ChangesExactly size base g S m (changeEntries size base g first n m) ↔
      ∀ i, ¬ (S i ↔ first ≤ i ∧ i < first + n) →
        g (m (base + size * i)) = m (base + size * i) := by
  constructor
  · rintro ⟨hchange, hkeep⟩ i hdiffer
    by_cases hS : S i
    · rw [← hchange i hS, changeEntries_notMem hsize (by grind)]
    · have hmem : first ≤ i ∧ i < first + n := by grind
      have happly : changeEntries size base g first n m (base + size * i) =
          g (m (base + size * i)) := changeEntries_apply hsize hmem.1 hmem.2
      rw [← happly]
      refine hkeep _ fun j hj heq => hS ?_
      rwa [Nat.eq_of_mul_eq_mul_left hsize (Nat.add_left_cancel heq)]
  · intro h
    refine ⟨fun i hS => ?_, fun a ha => ?_⟩
    · by_cases hmem : first ≤ i ∧ i < first + n
      · exact changeEntries_apply hsize hmem.1 hmem.2
      · rw [changeEntries_notMem hsize (by omega), h i (by grind)]
    · by_cases hmem : ∃ i, first ≤ i ∧ i < first + n ∧ a = base + size * i
      · obtain ⟨i, hi, hi', rfl⟩ := hmem
        rw [changeEntries_apply hsize hi hi', h i fun hiff => ha i (hiff.mpr ⟨hi, hi'⟩) rfl]
      · exact changeEntries_of_ne fun i hi hi' heq => hmem ⟨i, hi, hi', heq⟩

/-- A loop that is wrong about one entry at most. -/
theorem changesExactly_changeEntries_stray (hsize : 0 < size) {S : Nat → Prop} {right : Prop}
    {stray : Nat} (hdiffer : ∀ i, ¬ (S i ↔ first ≤ i ∧ i < first + n) ↔ ¬ right ∧ i = stray) :
    ChangesExactly size base g S m (changeEntries size base g first n m) ↔
      right ∨ g (m (base + size * stray)) = m (base + size * stray) := by
  rw [changesExactly_changeEntries_iff hsize]
  simp only [hdiffer]
  constructor
  · intro hstray
    by_cases hright : right
    · exact .inl hright
    · exact .inr (hstray _ ⟨hright, rfl⟩)
  · rintro (hright | hstray) i ⟨hnot, rfl⟩
    · exact absurd hright hnot
    · exact hstray

end

/-! ## Walking -/

/-- Entry `i` of the upper level points to the `i`th table of the level below, which has `2 ^ bits`
entries. -/
def LinkedTo (size : Nat) (next : β → Nat) (bits : Nat) (m : Nat → β) (upper n lower : Nat) : Prop :=
  ∀ i < n, next (m (upper + size * i)) = lower + size * (2 ^ bits * i)

theorem div_split (a s bits : Nat) :
    2 ^ bits * (a / 2 ^ (s + bits)) + a / 2 ^ s % 2 ^ bits = a / 2 ^ s := by
  rw [Nat.pow_add, ← Nat.div_div_eq_div_mul, Nat.div_add_mod]

theorem LinkedTo.descend {next : β → Nat} {bits upper lower s a : Nat}
    (h : LinkedTo size next bits m upper n lower) (ha : a / 2 ^ (s + bits) < n) :
    next (m (upper + size * (a / 2 ^ (s + bits)))) + size * (a / 2 ^ s % 2 ^ bits) =
      lower + size * (a / 2 ^ s) := by
  rw [h _ ha, Nat.add_assoc, ← Nat.mul_add, div_split]

theorem LinkedTo.congr {next : β → Nat} {bits upper lower : Nat} {m' : Nat → β}
    (h : LinkedTo size next bits m upper n lower)
    (hm : ∀ i < n, m' (upper + size * i) = m (upper + size * i)) :
    LinkedTo size next bits m' upper n lower := by
  intro i hi
  rw [hm i hi, h i hi]

end RadixTable
