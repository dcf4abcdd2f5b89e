import Mathlib.Data.BitVec
import Mathlib.Data.Nat.Bitwise

/-! # Bit fields of a word

A bit field is `len` bits of a word from bit `lo` on. `BitField.get` reads it, `BitField.set` writes
it by masking. Reading a field that was written gives what was written; a field that shares no bit
with it reads as before.

A word that is put together as `x ||| flags`, with an aligned `x` and small flags, is taken apart by
the lemmas of the last section.
-/

namespace BitField

variable {w len : Nat} {x : BitVec w} {v : BitVec len} {lo i : Nat}

def get (lo len : Nat) (x : BitVec w) : BitVec len := x.extractLsb' lo len

/-- The bits of the field are cleared and then set to those of `v`. -/
def set (lo : Nat) (v : BitVec len) (x : BitVec w) : BitVec w :=
  (x &&& ~~~((BitVec.allOnes len).setWidth w <<< lo)) ||| (v.setWidth w <<< lo)

theorem getLsbD_get : (get lo len x).getLsbD i = (decide (i < len) && x.getLsbD (lo + i)) := by
  rw [get, BitVec.getLsbD_extractLsb']

theorem getLsbD_set (hw : lo + len ≤ w) :
    (set lo v x).getLsbD i =
      if lo ≤ i ∧ i < lo + len then v.getLsbD (i - lo) else x.getLsbD i := by
  simp only [set, BitVec.getLsbD_or, BitVec.getLsbD_and, BitVec.getLsbD_not,
    BitVec.getLsbD_shiftLeft, BitVec.getLsbD_setWidth, BitVec.getLsbD_allOnes]
  by_cases hi : i < w
  · by_cases hlo : i < lo
    · simp [hi, hlo, Nat.not_le.mpr hlo]
    · by_cases hhi : i < lo + len
      · have h1 : i - lo < len := by omega
        have h2 : i - lo < w := by omega
        simp [hi, hlo, hhi, h1, h2, Nat.le_of_not_lt hlo]
      · have h1 : ¬ i - lo < len := by omega
        have h2 : v.getLsbD (i - lo) = false := BitVec.getLsbD_of_ge _ _ (by omega)
        simp [hi, hlo, hhi, h1, h2]
  · have h1 : x.getLsbD i = false := BitVec.getLsbD_of_ge _ _ (by omega)
    have h2 : ¬ (lo ≤ i ∧ i < lo + len) := by omega
    simp [hi, h1, h2]

@[simp] theorem get_set (hw : lo + len ≤ w) : get lo len (set lo v x) = v := by
  apply BitVec.eq_of_getLsbD_eq
  intro i hi
  rw [getLsbD_get, getLsbD_set hw, decide_eq_true hi, Bool.true_and, if_pos (by omega),
    Nat.add_sub_cancel_left]

/-- A write leaves the fields below and above alone. -/
theorem get_set_of_disjoint {lo' len' : Nat} (hw : lo + len ≤ w)
    (h : lo' + len' ≤ lo ∨ lo + len ≤ lo') : get lo' len' (set lo v x) = get lo' len' x := by
  apply BitVec.eq_of_getLsbD_eq
  intro i hi
  rw [getLsbD_get, getLsbD_get, getLsbD_set hw, if_neg (by omega)]

theorem get_zero : get lo len 0#(w) = 0#(len) := by
  apply BitVec.eq_of_getLsbD_eq
  intro i _
  rw [getLsbD_get, BitVec.getLsbD_zero, BitVec.getLsbD_zero, Bool.and_false]

/-- A field of zeros is written without clearing it. -/
theorem set_of_get_eq_zero (hw : lo + len ≤ w) (h : get lo len x = 0#(len)) :
    set lo v x = x ||| (v.setWidth w <<< lo) := by
  apply BitVec.eq_of_getLsbD_eq
  intro i hi
  rw [getLsbD_set hw, BitVec.getLsbD_or, BitVec.getLsbD_shiftLeft, BitVec.getLsbD_setWidth]
  by_cases hlo : lo ≤ i
  · by_cases hhi : i < lo + len
    · have hbit : (get lo len x).getLsbD (i - lo) = false := by rw [h, BitVec.getLsbD_zero]
      rw [getLsbD_get, decide_eq_true (by omega), Bool.true_and, Nat.add_sub_cancel' hlo] at hbit
      rw [if_pos ⟨hlo, hhi⟩, hbit]
      simp [hi, hlo, show i - lo < w by omega]
    · have hv : v.getLsbD (i - lo) = false := BitVec.getLsbD_of_ge _ _ (by omega)
      rw [if_neg fun h => hhi h.2, hv, Bool.and_false, Bool.and_false, Bool.or_false]
  · rw [if_neg fun h => hlo h.1, decide_eq_true (Nat.lt_of_not_le hlo)]
    simp

/-! ## Writes with a mask -/

/-- The bits of the mask are cleared before those of `v` are set. -/
def insert (lo : Nat) (mask v : BitVec len) (x : BitVec w) : BitVec w :=
  (x &&& ~~~(mask.setWidth w <<< lo)) ||| (v.setWidth w <<< lo)

theorem getLsbD_insert {mask : BitVec len} (hw : lo + len ≤ w) :
    (insert lo mask v x).getLsbD i =
      if lo ≤ i ∧ i < lo + len then
        x.getLsbD i && !mask.getLsbD (i - lo) || v.getLsbD (i - lo)
      else x.getLsbD i := by
  simp only [insert, BitVec.getLsbD_or, BitVec.getLsbD_and, BitVec.getLsbD_not,
    BitVec.getLsbD_shiftLeft, BitVec.getLsbD_setWidth]
  by_cases hi : i < w
  · by_cases hlo : i < lo
    · simp [hi, hlo, Nat.not_le.mpr hlo]
    · have h2 : i - lo < w := by omega
      by_cases hhi : i < lo + len
      · simp [hi, hlo, hhi, h2, Nat.le_of_not_lt hlo]
      · have hmask : mask.getLsbD (i - lo) = false := BitVec.getLsbD_of_ge _ _ (by omega)
        have hv : v.getLsbD (i - lo) = false := BitVec.getLsbD_of_ge _ _ (by omega)
        simp [hi, hlo, hhi, hmask, hv]
  · have h1 : x.getLsbD i = false := BitVec.getLsbD_of_ge _ _ (by omega)
    have h2 : ¬ (lo ≤ i ∧ i < lo + len) := by omega
    simp [hi, h1, h2]

/-- With an empty mask nothing is cleared. -/
theorem insert_zero : insert lo 0#(len) v x = x ||| (v.setWidth w <<< lo) := by
  rw [insert, BitVec.setWidth_zero, BitVec.zero_shiftLeft, BitVec.not_zero, BitVec.and_allOnes]

theorem get_insert {mask : BitVec len} (hw : lo + len ≤ w) :
    get lo len (insert lo mask v x) = (get lo len x &&& ~~~mask) ||| v := by
  apply BitVec.eq_of_getLsbD_eq
  intro i hi
  rw [getLsbD_get, getLsbD_insert hw, if_pos (by omega), Nat.add_sub_cancel_left,
    BitVec.getLsbD_or, BitVec.getLsbD_and, BitVec.getLsbD_not, getLsbD_get, decide_eq_true hi]
  simp only [Bool.true_and]

theorem get_insert_of_disjoint {mask : BitVec len} {lo' len' : Nat} (hw : lo + len ≤ w)
    (h : lo' + len' ≤ lo ∨ lo + len ≤ lo') :
    get lo' len' (insert lo mask v x) = get lo' len' x := by
  apply BitVec.eq_of_getLsbD_eq
  intro i hi
  rw [getLsbD_get, getLsbD_get, getLsbD_insert hw, if_neg (by omega)]

/-! ## Sequences of writes

A write that clears the field first replaces what was written before. One that keeps some of the old
bits gathers them: it only reads back if the earlier values have no bit that the last one lacks.
-/

section
variable {α β : Type*} {keep b p last : BitVec len} {vs : List (BitVec len)}

/-- A fold in which some of the steps replace the value ends with the last replacement. -/
theorem foldl_getD {value : α → Option β} {steps : List α} {b : β} :
    steps.foldl (fun b step => (value step).getD b) b =
      ((steps.filterMap value).getLast?).getD b := by
  induction steps using List.reverseRecOn with
  | nil => rfl
  | append_singleton steps step ih =>
    rw [List.foldl_concat, ih, List.filterMap_append, List.getLast?_append]
    cases h : value step <;> simp [h]

/-- Of the bits to keep, `p` has none that `last` has not. -/
def Within (keep p last : BitVec len) : Prop := p &&& keep &&& ~~~last = 0#(len)

instance : Decidable (Within keep p last) := inferInstanceAs (Decidable (_ = _))

theorem within_iff : Within keep p last ↔
    ∀ i < len, p.getLsbD i = true → keep.getLsbD i = true → last.getLsbD i = true := by
  constructor
  · intro h i hi hp hkeep
    have hbit := congrArg (fun x => BitVec.getLsbD x i) h
    simpa [hi, hp, hkeep] using hbit
  · intro h
    apply BitVec.eq_of_getLsbD_eq
    intro i hi
    have hbit := h i hi
    simp only [BitVec.getLsbD_and, BitVec.getLsbD_not, BitVec.getLsbD_zero, hi, decide_true,
      Bool.true_and]
    cases hp : p.getLsbD i <;> cases hkeep : keep.getLsbD i <;> simp_all

theorem within_self : Within keep last last :=
  within_iff.mpr fun _ _ hlast _ => hlast

theorem within_write : Within keep ((b &&& keep) ||| p) last ↔
    Within keep b last ∧ Within keep p last := by
  simp only [within_iff, BitVec.getLsbD_or, BitVec.getLsbD_and, Bool.or_eq_true, Bool.and_eq_true]
  constructor
  · intro h
    exact ⟨fun i hi hb hkeep => h i hi (.inl ⟨hb, hkeep⟩) hkeep,
      fun i hi hp hkeep => h i hi (.inr hp) hkeep⟩
  · rintro ⟨hb, hp⟩ i hi (⟨hbi, -⟩ | hpi) hkeep
    · exact hb i hi hbi hkeep
    · exact hp i hi hpi hkeep

/-- A write gives the value if the old one is within it. -/
theorem write_eq_iff : (b &&& keep) ||| last = last ↔ Within keep b last := by
  rw [within_iff]
  constructor
  · intro h i _ hb hkeep
    rw [← h, BitVec.getLsbD_or, BitVec.getLsbD_and, hb, hkeep]
    rfl
  · intro h
    apply BitVec.eq_of_getLsbD_eq
    intro i hi
    have hbit := h i hi
    rw [BitVec.getLsbD_or, BitVec.getLsbD_and]
    cases hb : b.getLsbD i <;> cases hkeep : keep.getLsbD i <;> simp_all

theorem within_foldl : Within keep (vs.foldl (fun b v => (b &&& keep) ||| v) b) last ↔
    ∀ p ∈ b :: vs, Within keep p last := by
  induction vs generalizing b with
  | nil => simp
  | cons v vs ih =>
    rw [List.foldl_cons, ih]
    simp only [List.forall_mem_cons, within_write, and_assoc]

/-- Writes give the last value if all the others, and the first content, are within it. -/
theorem foldl_eq_last_iff (h : vs.getLast? = some last) :
    vs.foldl (fun b v => (b &&& keep) ||| v) b = last ↔ ∀ p ∈ b :: vs, Within keep p last := by
  obtain ⟨vs, rfl⟩ := List.getLast?_eq_some_iff.mp h
  rw [List.foldl_concat, write_eq_iff, within_foldl]
  simp [or_imp, forall_and, within_self]

end

/-! ## Words put together from an address and flags -/

theorem toNat_get : (get lo len x).toNat = x.toNat / 2 ^ lo % 2 ^ len := by
  rw [get, BitVec.extractLsb'_toNat, Nat.shiftRight_eq_div_pow]

theorem and_shiftLeft (a b s : Nat) : a &&& b <<< s = ((a >>> s) &&& b) <<< s := by
  apply Nat.eq_of_testBit_eq
  intro i
  rw [Nat.testBit_and, Nat.testBit_shiftLeft, Nat.testBit_shiftLeft, Nat.testBit_and,
    Nat.testBit_shiftRight]
  by_cases hi : s ≤ i
  · rw [Nat.add_sub_cancel' hi]
    simp [hi]
  · simp [hi]

/-- Masking with `len` ones from bit `lo` on drops the bits around them. -/
theorem and_mask (a lo len : Nat) : a &&& (2 ^ len - 1) <<< lo = a / 2 ^ lo % 2 ^ len * 2 ^ lo := by
  rw [and_shiftLeft, Nat.and_two_pow_sub_one_eq_mod, Nat.shiftLeft_eq, Nat.shiftRight_eq_div_pow]

/-- Flags below an aligned address do not carry. -/
theorem or_flags {a flags s : Nat} (ha : 2 ^ s ∣ a) (hflags : flags < 2 ^ s) :
    a ||| flags = a + flags := by
  obtain ⟨k, rfl⟩ := ha
  rw [Nat.mul_comm, ← Nat.shiftLeft_eq, Nat.shiftLeft_add_eq_or_of_lt hflags]

theorem or_flags_div {a flags s : Nat} (ha : 2 ^ s ∣ a) (hflags : flags < 2 ^ s) :
    (a ||| flags) / 2 ^ s = a / 2 ^ s := by
  obtain ⟨k, rfl⟩ := ha
  rw [or_flags ⟨k, rfl⟩ hflags, Nat.mul_add_div (Nat.two_pow_pos s), Nat.div_eq_of_lt hflags,
    Nat.add_zero, Nat.mul_div_cancel_left k (Nat.two_pow_pos s)]

end BitField
