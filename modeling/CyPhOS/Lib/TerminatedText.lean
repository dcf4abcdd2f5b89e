import Mathlib.Data.List.TakeDrop
import Mathlib.Logic.Function.Basic

/-! # Terminated texts in memory

`Begins line text` says that the cells from 0 on hold a text, `Shows z line text` that a terminator
follows it. Texts are written cell by cell (`Begins.write`), up to a limit (`Begins.write_take`),
and read until the terminator comes (`readText_eq`).
-/

namespace TerminatedText

variable {α : Type} {z : α} {line : Nat → α} {text : List α} {limit : Nat}

def Begins (line : Nat → α) (text : List α) : Prop :=
  ∀ i (h : i < text.length), line i = text[i]

/-- The text, with a terminator behind it. -/
structure Shows (z : α) (line : Nat → α) (text : List α) : Prop where
  begins : Begins line text
  terminator : line text.length = z

theorem begins_nil : Begins line ([] : List α) :=
  fun _ h => absurd h (Nat.not_lt_zero _)

theorem Begins.write (h : Begins line text) (c : α) :
    Begins (Function.update line text.length c) (text ++ [c]) := by
  intro i hi
  rw [List.length_append, List.length_singleton] at hi
  rcases Nat.lt_succ_iff_lt_or_eq.mp hi with hlt | rfl
  · rw [Function.update_of_ne (Nat.ne_of_lt hlt), h i hlt, List.getElem_append_left hlt]
  · simp

theorem Begins.terminate (h : Begins line text) (z : α) :
    Shows z (Function.update line text.length z) text where
  begins i hi := (Function.update_of_ne (Nat.ne_of_lt hi) ..).trans (h i hi)
  terminator := Function.update_self ..

/-- A cell is written as long as the text has not come to the limit. -/
theorem Begins.write_take (h : Begins line (text.take limit))
    (hlt : (text.take limit).length < limit) (c : α) :
    Begins (Function.update line (text.take limit).length c) ((text ++ [c]).take limit) ∧
      ((text ++ [c]).take limit).length = (text.take limit).length + 1 := by
  have hlength : text.length < limit := by
    rw [List.length_take] at hlt
    omega
  have htake : text.take limit = text := List.take_of_length_le (Nat.le_of_lt hlength)
  rw [List.take_of_length_le (show (text ++ [c]).length ≤ limit by simp; omega)]
  rw [htake] at h ⊢
  exact ⟨h.write c, by simp⟩

theorem take_append_of_full (hle : limit ≤ (text.take limit).length) (rest : List α) :
    (text ++ rest).take limit = text.take limit := by
  rw [List.length_take] at hle
  exact List.take_append_of_le_length (by omega)

variable [DecidableEq α]

/-- What is read from a cell on until the terminator comes, in a number of rounds. -/
def readText (z : α) (line : Nat → α) : Nat → Nat → Option (List α)
  | 0, _ => none
  | rounds + 1, i =>
    if line i = z then some [] else (readText z line rounds (i + 1)).map (line i :: ·)

theorem readText_drop {rounds i : Nat} (h : Shows z line text) (hz : z ∉ text)
    (hi : i ≤ text.length) (hrounds : text.length < i + rounds) :
    readText z line rounds i = some (text.drop i) := by
  induction rounds generalizing i with
  | zero => omega
  | succ rounds ih =>
    rw [readText]
    rcases Nat.lt_or_eq_of_le hi with hlt | rfl
    · have hne : line i ≠ z := by
        rw [h.begins i hlt]
        rintro rfl
        exact hz (List.getElem_mem hlt)
      rw [if_neg hne, ih hlt (by omega), List.drop_eq_getElem_cons hlt, h.begins i hlt]
      rfl
    · rw [if_pos h.terminator, List.drop_length]

theorem readText_eq {rounds : Nat} (h : Shows z line text) (hz : z ∉ text)
    (hrounds : text.length < rounds) : readText z line rounds 0 = some text :=
  readText_drop h hz (Nat.zero_le _) (by omega)

end TerminatedText
