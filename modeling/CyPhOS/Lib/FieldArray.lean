import CyPhOS.Lib.BitField
import Mathlib.Logic.Function.Basic

/-! # Arrays of bit fields

Words of `w` bits that each hold `per` fields of `len` bits make an array of fields: field `i` is in
word `i / per`, from bit `len * (i % per)` on. `FieldArray.read` reads it, and `FieldArray.modify`
reads, changes and writes the word that holds it.

`ActsOn per len s f g` says that a change `f` of a word does `g` to its field `s` and nothing to the
others. Then `modify` is an update of the array (`ActsOn.read_modify`). A loop of updates at different
places does each of them once (`foldl_update`).
-/

namespace FieldArray

variable {w len per : Nat} {words : Nat → BitVec w} {i j s : Nat}

def read (per len : Nat) (words : Nat → BitVec w) (i : Nat) : BitVec len :=
  BitField.get (len * (i % per)) len (words (i / per))

def modify (per : Nat) (words : Nat → BitVec w) (i : Nat) (f : BitVec w → BitVec w) :
    Nat → BitVec w :=
  Function.update words (i / per) (f (words (i / per)))

theorem getLsbD_read {k : Nat} (hk : k < len) :
    (read per len words i).getLsbD k = (words (i / per)).getLsbD (len * (i % per) + k) := by
  rw [read, BitField.getLsbD_get, decide_eq_true hk, Bool.true_and]

theorem modify_self {f : BitVec w → BitVec w} :
    modify per words i f (i / per) = f (words (i / per)) :=
  Function.update_self ..

theorem modify_of_ne {f : BitVec w → BitVec w} (h : j ≠ i / per) :
    modify per words i f j = words j :=
  Function.update_of_ne h ..

/-- The change does this to field `s` of a word and leaves the other fields alone. -/
structure ActsOn (per len s : Nat) (f : BitVec w → BitVec w) (g : BitVec len → BitVec len) :
    Prop where
  self : ∀ x, BitField.get (len * s) len (f x) = g (BitField.get (len * s) len x)
  other : ∀ x, ∀ j < per, j ≠ s →
    BitField.get (len * j) len (f x) = BitField.get (len * j) len x

/-- Two fields are the same one, or in different words, or at different places. -/
theorem eq_of_div_mod (hdiv : i / per = j / per) (hmod : i % per = j % per) : i = j := by
  rw [← Nat.div_add_mod i per, ← Nat.div_add_mod j per, hdiv, hmod]

theorem ActsOn.read_modify {f : BitVec w → BitVec w} {g : BitVec len → BitVec len}
    (h : ActsOn per len (i % per) f g) (hper : 0 < per) :
    read per len (modify per words i f) =
      Function.update (read per len words) i (g (read per len words i)) := by
  funext j
  rcases eq_or_ne j i with rfl | hne
  · rw [Function.update_self, read, modify_self, h.self]
    rfl
  · rw [Function.update_of_ne hne]
    by_cases hdiv : j / per = i / per
    · have hmod : j % per ≠ i % per := fun hmod => hne (eq_of_div_mod hdiv hmod)
      rw [read, read, hdiv, modify_self, h.other _ _ (Nat.mod_lt j hper) hmod]
    · rw [read, read, modify_of_ne hdiv]

/-- Writing a field with a mask. -/
theorem actsOn_insert {mask v : BitVec len} (hw : len * per ≤ w) (hs : s < per) :
    ActsOn (w := w) per len s (BitField.insert (len * s) mask v)
      fun b => (b &&& ~~~mask) ||| v := by
  have hin : len * s + len ≤ w := by
    have := Nat.mul_le_mul_left len (Nat.succ_le_of_lt hs)
    rw [Nat.mul_succ] at this
    omega
  refine ⟨fun x => BitField.get_insert hin, fun x j _ hne => ?_⟩
  refine BitField.get_insert_of_disjoint hin ?_
  rcases Nat.lt_or_gt_of_ne hne with hlt | hgt
  · have := Nat.mul_le_mul_left len (Nat.succ_le_of_lt hlt)
    rw [Nat.mul_succ] at this
    exact .inl this
  · have := Nat.mul_le_mul_left len (Nat.succ_le_of_lt hgt)
    rw [Nat.mul_succ] at this
    exact .inr this

/-! ## Loops -/

section
variable {σ β : Type*} {op : σ → Nat → σ} {is : List Nat} {x : σ}

theorem foldl_update {view : σ → Nat → β} {g : Nat → β → β}
    (h : ∀ x i, view (op x i) = Function.update (view x) i (g i (view x i))) (his : is.Nodup) :
    view (is.foldl op x) j = if j ∈ is then g j (view x j) else view x j := by
  induction is generalizing x with
  | nil => simp
  | cons i is ih =>
    obtain ⟨hi, his⟩ := List.nodup_cons.mp his
    rw [List.foldl_cons, ih his, h]
    rcases eq_or_ne j i with rfl | hne
    · simp [hi]
    · simp [hne]

theorem foldl_frame (view : σ → β) (h : ∀ x, ∀ i ∈ is, view (op x i) = view x) :
    view (is.foldl op x) = view x := by
  induction is generalizing x with
  | nil => rfl
  | cons i is ih =>
    rw [List.foldl_cons, ih fun x i hi => h x i (List.mem_cons_of_mem _ hi),
      h x i (List.mem_cons_self ..)]

end

end FieldArray
