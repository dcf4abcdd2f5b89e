import Mathlib.Logic.Function.Basic

/-! # A set-associative cache whose ways can be closed

Each way has one place for every set, and a line goes to the set of its index. An access that misses
brings the line into a way that is open, where it may replace another one; a way that is closed still
hits, but takes in no line.

`Access.closed` says that the ways that are closed stay as they are. `Loading` is a way that is being
filled with given lines of different indices: if it is the only open way, accesses to those that are
still to come bring in one after the other (`Loading.access`).
-/

namespace WayCache

variable {W S L : Type*} {index : L → S} {opened : W → Prop} {c c' : W → S → Option L} {way v : W}
  {line : L}

/-- The line is in the way. -/
def Has (index : L → S) (c : W → S → Option L) (way : W) (line : L) : Prop :=
  c way (index line) = some line

/-- The line is in some way. -/
def Hit (index : L → S) (c : W → S → Option L) (line : L) : Prop :=
  ∃ way, Has index c way line

section
variable [DecidableEq W]

/-- The way is cleaned and invalidated. -/
def invalidate (c : W → S → Option L) (way : W) : W → S → Option L :=
  Function.update c way fun _ => none

@[simp] theorem invalidate_self : invalidate c way way = fun _ => none := Function.update_self ..

theorem invalidate_of_ne (h : v ≠ way) : invalidate c way v = c v := Function.update_of_ne h ..

variable [DecidableEq S]

/-- The line comes into the way. -/
def fill (index : L → S) (c : W → S → Option L) (way : W) (line : L) : W → S → Option L :=
  Function.update c way (Function.update (c way) (index line) (some line))

theorem fill_of_ne (h : v ≠ way) : fill index c way line v = c v := Function.update_of_ne h ..

theorem fill_self (i : S) :
    fill index c way line way i = if i = index line then some line else c way i := by
  rw [fill, Function.update_self, Function.update_apply]

/-- An access to a line. What misses comes into an open way, unless its place is taken in all of
them. -/
inductive Access (index : L → S) (opened : W → Prop) (c : W → S → Option L) (line : L) :
    (W → S → Option L) → Prop
  | hit : Hit index c line → Access index opened c line c
  | miss {way : W} : ¬ Hit index c line → opened way →
    Access index opened c line (fill index c way line)
  | full : ¬ Hit index c line → (∀ way, opened way → c way (index line) ≠ none) →
    Access index opened c line c

theorem Access.exists (index : L → S) (opened : W → Prop) (c : W → S → Option L) (line : L) :
    ∃ c', Access index opened c line c' := by
  by_cases hhit : Hit index c line
  · exact ⟨c, .hit hhit⟩
  by_cases hopened : ∃ way, opened way
  · obtain ⟨way, hway⟩ := hopened
    exact ⟨_, .miss hhit hway⟩
  · exact ⟨c, .full hhit fun way hway => absurd ⟨way, hway⟩ hopened⟩

theorem Access.of_hit (h : Access index opened c line c') (hhit : Hit index c line) : c' = c := by
  cases h with
  | hit => rfl
  | miss hmiss => exact absurd hhit hmiss
  | full => rfl

theorem Access.closed (h : Access index opened c line c') (hway : ¬ opened way) :
    c' way = c way := by
  cases h with
  | hit => rfl
  | miss _ hopened =>
    refine fill_of_ne ?_
    rintro rfl
    exact hway hopened
  | full => rfl

/-- If the only way that is open has room for the line, the line is in the cache after the access,
and nothing else has changed. -/
theorem Access.fills (h : Access index opened c line c') (hopened : opened way)
    (honly : ∀ v, opened v → v = way) (hroom : c way (index line) = none) :
    Hit index c line ∧ c' = c ∨ ¬ Hit index c line ∧ c' = fill index c way line := by
  cases h with
  | hit hhit => exact .inl ⟨hhit, rfl⟩
  | @miss v hmiss hv =>
    obtain rfl := honly v hv
    exact .inr ⟨hmiss, rfl⟩
  | full _ htaken => exact absurd hroom (htaken way hopened)

/-! ## Filling a way -/

/-- The lines of the way are among the given ones, each of which is in the way, in the cache for good,
or still to come. -/
structure Loading (index : L → S) (kept lines : L → Prop) (c : W → S → Option L) (way : W)
    (todo : List L) : Prop where
  loaded : ∀ l, lines l → Has index c way l ∨ kept l ∨ l ∈ todo
  only : ∀ i l, c way i = some l → index l = i ∧ lines l ∧ l ∉ todo

variable {kept lines : L → Prop} {todo : List L}

omit [DecidableEq W] [DecidableEq S] in
theorem Loading.of_eq (h : Loading index kept lines c way todo) (heq : c' way = c way) :
    Loading index kept lines c' way todo := by
  refine ⟨fun l hl => ?_, fun i l hl => h.only i l (heq ▸ hl)⟩
  rw [Has, heq]
  exact h.loaded l hl

omit [DecidableEq W] [DecidableEq S] in
theorem Loading.of_empty (h : ∀ i, c way i = none) (htodo : ∀ l, lines l → l ∈ todo) :
    Loading index kept lines c way todo := by
  refine ⟨fun l hl => .inr (.inr (htodo l hl)), fun i l hl => ?_⟩
  rw [h i] at hl
  cases hl

omit [DecidableEq W] [DecidableEq S] in
/-- A line that is to come has room, if no other of the lines has its index. -/
theorem Loading.room (h : Loading index kept lines c way todo)
    (hindex : ∀ l, lines l → index l = index line → l = line) (htodo : line ∈ todo) :
    c way (index line) = none := by
  by_contra htaken
  obtain ⟨l, hl⟩ := Option.ne_none_iff_exists'.mp htaken
  obtain ⟨hi, hlines, hnot⟩ := h.only _ l hl
  exact hnot (hindex l hlines hi ▸ htodo)

/-- The next line is brought in. -/
theorem Loading.access (h : Loading index kept lines c way (line :: todo)) (hline : lines line)
    (hindex : ∀ l, lines l → index l = index line → l = line) (htodo : line ∉ todo)
    (hopened : opened way) (honly : ∀ v, opened v → v = way)
    (helsewhere : ∀ v, Has index c v line → v = way ∨ kept line)
    (haccess : Access index opened c line c') :
    Loading index kept lines c' way todo ∧ ∀ v ≠ way, c' v = c v := by
  have hroom := h.room hindex List.mem_cons_self
  rcases haccess.fills hopened honly hroom with ⟨⟨v, hv⟩, rfl⟩ | ⟨-, rfl⟩
  · have hkept : kept line := by
      refine (helsewhere v hv).resolve_left ?_
      rintro rfl
      rw [Has, hroom] at hv
      cases hv
    refine ⟨⟨fun l hl => ?_, fun i l hl => ?_⟩, fun _ _ => rfl⟩
    · rcases h.loaded l hl with hin | hin | hin
      · exact .inl hin
      · exact .inr (.inl hin)
      · rcases List.mem_cons.mp hin with rfl | hin
        · exact .inr (.inl hkept)
        · exact .inr (.inr hin)
    · obtain ⟨hi, hlines, hnot⟩ := h.only i l hl
      exact ⟨hi, hlines, fun hin => hnot (.tail _ hin)⟩
  · refine ⟨⟨fun l hl => ?_, fun i l hl => ?_⟩, fun v hv => fill_of_ne hv⟩
    · rcases eq_or_ne l line with rfl | hne
      · exact .inl (by rw [Has, fill_self, if_pos rfl])
      · rcases h.loaded l hl with hin | hin | hin
        · refine .inl ?_
          rw [Has, fill_self, if_neg fun hi => hne (hindex l hl hi)]
          exact hin
        · exact .inr (.inl hin)
        · exact .inr (.inr ((List.mem_cons.mp hin).resolve_left hne))
    · rw [fill_self] at hl
      split at hl
      next hi =>
        obtain rfl := Option.some.inj hl
        exact ⟨hi.symm, hline, htodo⟩
      next =>
        obtain ⟨hi, hlines, hnot⟩ := h.only i l hl
        exact ⟨hi, hlines, fun hin => hnot (.tail _ hin)⟩

end

end WayCache
