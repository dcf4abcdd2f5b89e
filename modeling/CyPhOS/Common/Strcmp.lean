import Mathlib.Order.Basic
import Mathlib.Tactic.Tauto

/-! # Comparing strings

`strncmp` compares the first characters before it looks at the length, and ends at a terminator in
either string without comparing it to the character in the other one. So it takes two strings for the
same if one is cut short (`strncmp_iff`).
-/

namespace CyPhOS

/-- The loop of `strncmp`. -/
def strncmpLoop (str1 str2 : Nat → UInt8) : Nat → Bool
  | 0 => true
  | len + 1 =>
    if str1 0 ≠ 0 ∧ str2 0 ≠ 0 then
      if str1 0 ≠ str2 0 then false
      else strncmpLoop (fun k => str1 (k + 1)) (fun k => str2 (k + 1)) len
    else true

/-- A pointer is the characters that it points to. -/
def strncmp (str1 str2 : Nat → UInt8) (len : Nat) : Bool :=
  if str1 0 ≠ str2 0 then false else strncmpLoop str1 str2 len

variable {a b : Nat → UInt8} {n k : Nat}

/-- The strings have the same characters before this one, and are not at their ends. -/
def SameBefore (a b : Nat → UInt8) (k : Nat) : Prop := ∀ j < k, a j = b j ∧ a j ≠ 0

/-- The first `n` characters are the same ones, up to a terminator that both have. -/
def AgreeUpTo (a b : Nat → UInt8) (n : Nat) : Prop := ∀ k < n, SameBefore a b k → a k = b k

/-- One string ends within the first `n` characters, behind something that it shares with the other
one, which goes on. -/
def CutShort (a b : Nat → UInt8) (n : Nat) : Prop :=
  ∃ k < n, 0 < k ∧ SameBefore a b k ∧ (a k = 0 ↔ b k ≠ 0)

theorem sameBefore_succ : SameBefore a b (k + 1) ↔
    (a 0 = b 0 ∧ a 0 ≠ 0) ∧ SameBefore (fun j => a (j + 1)) (fun j => b (j + 1)) k := by
  constructor
  · exact fun h => ⟨h 0 (Nat.succ_pos k), fun j hj => h (j + 1) (Nat.succ_lt_succ hj)⟩
  · rintro ⟨hzero, hsucc⟩ (_ | j) hj
    · exact hzero
    · exact hsucc j (Nat.lt_of_succ_lt_succ hj)

/-- The loop finds characters that differ if there are some before a terminator. -/
theorem strncmpLoop_iff : strncmpLoop a b n = true ↔
    ∀ k < n, SameBefore a b k → a k ≠ 0 → b k ≠ 0 → a k = b k := by
  induction n generalizing a b with
  | zero => exact iff_of_true rfl fun k hk => absurd hk (Nat.not_lt_zero k)
  | succ n ih =>
    have hsplit : (∀ k < n + 1, SameBefore a b k → a k ≠ 0 → b k ≠ 0 → a k = b k) ↔
        (a 0 ≠ 0 → b 0 ≠ 0 → a 0 = b 0) ∧ (a 0 = b 0 ∧ a 0 ≠ 0 →
          ∀ k < n, SameBefore (fun j => a (j + 1)) (fun j => b (j + 1)) k →
            a (k + 1) ≠ 0 → b (k + 1) ≠ 0 → a (k + 1) = b (k + 1)) := by
      constructor
      · intro h
        exact ⟨h 0 (Nat.succ_pos n) fun j hj => absurd hj (Nat.not_lt_zero j),
          fun hzero k hk hsame =>
            h (k + 1) (Nat.succ_lt_succ hk) (sameBefore_succ.mpr ⟨hzero, hsame⟩)⟩
      · rintro ⟨hfirst, hrest⟩ (_ | k) hk hsame
        · exact hfirst
        · obtain ⟨hzero, hsame⟩ := sameBefore_succ.mp hsame
          exact hrest hzero k (Nat.lt_of_succ_lt_succ hk) hsame
    rw [strncmpLoop, hsplit]
    by_cases hends : a 0 ≠ 0 ∧ b 0 ≠ 0
    · rw [if_pos hends]
      by_cases heq : a 0 = b 0
      · rw [if_neg (not_not.mpr heq), ih]
        exact ⟨fun h => ⟨fun _ _ => heq, fun _ => h⟩, fun h => h.2 ⟨heq, hends.1⟩⟩
      · rw [if_pos heq]
        exact iff_of_false Bool.false_ne_true fun h => heq (h.1 hends.1 hends.2)
    · rw [if_neg hends]
      refine iff_of_true rfl ⟨fun ha hb => absurd ⟨ha, hb⟩ hends, fun h => ?_⟩
      exact absurd ⟨h.2, h.1 ▸ h.2⟩ hends

theorem strncmp_eq_true : strncmp a b n = true ↔ a 0 = b 0 ∧ strncmpLoop a b n = true := by
  rw [strncmp]
  by_cases heq : a 0 = b 0
  · simp [heq]
  · simp [heq]

/-- The loop accepts what agrees, and what is cut short. -/
theorem strncmp_eq_true_iff :
    strncmp a b n = true ↔ a 0 = b 0 ∧ (AgreeUpTo a b n ∨ CutShort a b n) := by
  rw [strncmp_eq_true, strncmpLoop_iff]
  refine and_congr_right fun hzero => ⟨fun h => or_iff_not_imp_right.mpr fun hcut k hk hsame => ?_,
    fun h k hk hsame ha hb => ?_⟩
  · rcases Nat.eq_zero_or_pos k with rfl | hpos
    · exact hzero
    · have hends : ¬ (a k = 0 ↔ b k ≠ 0) := fun hends => hcut ⟨k, hk, hpos, hsame, hends⟩
      by_cases ha : a k = 0
      · by_cases hb : b k = 0
        · rw [ha, hb]
        · exact absurd (iff_of_true ha hb) hends
      · by_cases hb : b k = 0
        · exact absurd (iff_of_false ha fun h => h hb) hends
        · exact h k hk hsame ha hb
  · rcases h with h | ⟨m, -, -, hm, hends⟩
    · exact h k hk hsame
    · -- the strings go on at `k`, so it is before the place where one of them ends
      rcases Nat.lt_trichotomy k m with hlt | rfl | hgt
      · exact (hm k hlt).1
      · exact absurd (hends.mpr hb) ha
      · obtain ⟨heq, hne⟩ := hsame m hgt
        exact absurd (hends.mpr (heq ▸ hne)) hne

/-- What is cut short does not agree. -/
theorem CutShort.not_agree (h : CutShort a b n) : ¬ AgreeUpTo a b n := by
  rintro hagree
  obtain ⟨k, hk, -, hsame, hends⟩ := h
  have heq := hagree k hk hsame
  rw [heq] at hends
  by_cases hb : b k = 0
  · exact hends.mp hb hb
  · exact hb (hends.mpr hb)

/-- `strncmp` is exact unless nothing is to be compared and the first characters differ, or one
string is cut short. -/
theorem strncmp_iff :
    (strncmp a b n = true ↔ AgreeUpTo a b n) ↔ ¬ (n = 0 ∧ a 0 ≠ b 0) ∧ ¬ CutShort a b n := by
  rw [strncmp_eq_true_iff]
  have hfirst : AgreeUpTo a b n → n = 0 ∨ a 0 = b 0 := fun h =>
    (Nat.eq_zero_or_pos n).imp_right fun hpos => h 0 hpos fun j hj => absurd hj (Nat.not_lt_zero j)
  have hnone : n = 0 → AgreeUpTo a b n := by
    rintro rfl k hk
    exact absurd hk (Nat.not_lt_zero k)
  have hcut : CutShort a b n → a 0 = b 0 ∧ ¬ AgreeUpTo a b n := fun h => by
    obtain ⟨k, -, hpos, hsame, -⟩ := id h
    exact ⟨(hsame 0 hpos).1, h.not_agree⟩
  tauto

end CyPhOS
