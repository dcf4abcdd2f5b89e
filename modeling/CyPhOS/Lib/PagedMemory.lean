import Mathlib.Data.Fin.Basic
import Mathlib.Data.List.FinRange
import Mathlib.Logic.Function.Basic

/-! # Copying words through a page table

A memory is a function from physical addresses to bytes. A program addresses it through a map from
virtual to physical addresses, of which `translate` is the one a page table gives: a frame for each
page, and the same offset in the frame as in the page.

`copyWords` is a loop that moves words upwards through such a map, one load and one store for each
word. Source and destination are virtual, so they may overlap in memory where the addresses do
not. `copyWords_dst` says what the loop leaves at the destination if every byte is read before it
is overwritten, `copyWords_frame` that it changes nothing else, and `copyPage_apply` puts both
together for a page-sized copy.
-/

namespace PagedMemory

variable {β : Type*} {w : Nat} {phys : Nat → Nat} {m : Nat → β}

/-! ## Loads and stores of words -/

/-- The word of `w` bytes at the virtual address `a`. -/
def readWord (w : Nat) (phys : Nat → Nat) (m : Nat → β) (a : Nat) : Fin w → β :=
  fun i => m (phys (a + i))

/-- Store the word `x` at the virtual address `a`, byte by byte. -/
def writeWord (phys : Nat → Nat) (m : Nat → β) (a : Nat) (x : Fin w → β) : Nat → β :=
  (List.finRange w).foldl (fun m (i : Fin w) => Function.update m (phys (a + i)) (x i)) m

theorem foldl_update_frame {ι : Type*} (loc : ι → Nat) {x : ι → β} {a : Nat} {l : List ι}
    (h : ∀ i ∈ l, loc i ≠ a) :
    l.foldl (fun m i => Function.update m (loc i) (x i)) m a = m a := by
  induction l generalizing m with
  | nil => rfl
  | cons i l ih =>
    have ha : a ≠ loc i := (h i (by simp)).symm
    rw [List.foldl_cons, ih fun j hj => h j (List.mem_cons_of_mem _ hj),
      Function.update_of_ne ha]

theorem foldl_update_apply {ι : Type*} (loc : ι → Nat) {x : ι → β} {l : List ι} {i : ι}
    (hinj : ∀ i j, loc i = loc j → i = j) (hl : l.Nodup) (hi : i ∈ l) :
    l.foldl (fun m i => Function.update m (loc i) (x i)) m (loc i) = x i := by
  induction l generalizing m with
  | nil => cases hi
  | cons j l ih =>
    have ⟨hj, hl⟩ := List.nodup_cons.mp hl
    rw [List.foldl_cons]
    rcases List.mem_cons.mp hi with rfl | hi
    · rw [foldl_update_frame loc fun j hj' heq => hj (hinj j i heq ▸ hj'), Function.update_self]
    · exact ih hl hi

theorem writeWord_frame {a b : Nat} {x : Fin w → β} (h : ∀ i < w, phys (a + i) ≠ b) :
    writeWord phys m a x b = m b :=
  foldl_update_frame (fun i : Fin w => phys (a + i)) fun i _ => h i i.isLt

/-- A store of a word whose bytes lie at different places leaves the word there. -/
theorem writeWord_apply {a : Nat} {x : Fin w → β} (i : Fin w)
    (hinj : ∀ i < w, ∀ j < w, phys (a + i) = phys (a + j) → i = j) :
    writeWord phys m a x (phys (a + i)) = x i := by
  refine foldl_update_apply (fun i : Fin w => phys (a + i)) ?_ (List.nodup_finRange w)
    (List.mem_finRange i)
  exact fun i j h => Fin.ext (hinj i i.isLt j j.isLt h)

/-! ## The copy loop -/

/-- Copy `n` words upwards from `src` to `dst`. -/
def copyWords (w : Nat) (phys : Nat → Nat) : Nat → Nat → Nat → (Nat → β) → (Nat → β)
  | 0, _, _, m => m
  | n + 1, dst, src, m =>
    copyWords w phys n (dst + w) (src + w) (writeWord phys m dst (readWord w phys m src))

variable {n dst src : Nat}

theorem copyWords_frame {b : Nat} (h : ∀ i < w * n, phys (dst + i) ≠ b) :
    copyWords w phys n dst src m b = m b := by
  induction n generalizing dst src m with
  | zero => rfl
  | succ n ih =>
    have hw : ∀ i < w, phys (dst + i) ≠ b := fun i hi => h i (by rw [Nat.mul_succ]; omega)
    have hrest : ∀ i < w * n, phys (dst + w + i) ≠ b := fun i hi => by
      rw [Nat.add_assoc]
      exact h (w + i) (by rw [Nat.mul_succ]; omega)
    rw [copyWords, ih hrest, writeWord_frame hw]

/-- A byte of the first word is loaded before anything is stored. -/
theorem copyWords_dst_first {i : Nat} (hi : i < w) (hn : 0 < n)
    (hinj : ∀ i < w * n, ∀ j < w * n, phys (dst + i) = phys (dst + j) → i = j) :
    copyWords w phys n dst src m (phys (dst + i)) = m (phys (src + i)) := by
  obtain ⟨n, rfl⟩ := Nat.exists_eq_succ_of_ne_zero hn.ne'
  have hmul : w * n.succ = w * n + w := Nat.mul_succ w n
  have hrest : ∀ j < w * n, phys (dst + w + j) ≠ phys (dst + i) := fun j hj heq => by
    have := hinj (w + j) (by omega) i (by omega) (by rwa [← Nat.add_assoc])
    omega
  rw [copyWords, copyWords_frame hrest]
  exact writeWord_apply ⟨i, hi⟩ fun i hi j hj => hinj i (by omega) j (by omega)

/-- A copy in which a byte of the destination lies only where the same byte of the source may lie
puts the old source there. -/
theorem copyWords_dst {i : Nat} (hi : i < w * n)
    (hinj : ∀ i < w * n, ∀ j < w * n, phys (dst + i) = phys (dst + j) → i = j)
    (hsrc : ∀ i < w * n, ∀ j < w * n, phys (src + i) = phys (dst + j) → i = j) :
    copyWords w phys n dst src m (phys (dst + i)) = m (phys (src + i)) := by
  induction n generalizing dst src m i with
  | zero => simp at hi
  | succ n ih =>
    have hmul : w * (n + 1) = w * n + w := Nat.mul_succ w n
    rcases Nat.lt_or_ge i w with hiw | hiw
    · exact copyWords_dst_first hiw n.succ_pos hinj
    · -- the byte belongs to a later word, which the first store leaves alone
      obtain ⟨i, rfl⟩ := Nat.exists_eq_add_of_le hiw
      have hload : ∀ j < w, phys (dst + j) ≠ phys (src + (w + i)) := fun j hj heq => by
        have := hsrc (w + i) hi j (by omega) heq.symm
        omega
      rw [copyWords, ← Nat.add_assoc, ih (by omega), writeWord_frame, Nat.add_assoc]
      · rwa [Nat.add_assoc]
      · intro i hi j hj heq
        rw [Nat.add_assoc, Nat.add_assoc] at heq
        have := hinj (w + i) (by omega) (w + j) (by omega) heq
        omega
      · intro i hi j hj heq
        rw [Nat.add_assoc, Nat.add_assoc] at heq
        have := hsrc (w + i) (by omega) (w + j) (by omega) heq
        omega

/-! ## Pages -/

/-- The physical address of a virtual one, when `frame` gives the frame of each page. -/
def translate (pageSize : Nat) (frame : Nat → Nat) (a : Nat) : Nat :=
  frame (a / pageSize) * pageSize + a % pageSize

variable {pageSize : Nat} {frame : Nat → Nat}

theorem div_add_of_dvd (hpos : 0 < pageSize) {a i : Nat} (ha : pageSize ∣ a) (hi : i < pageSize) :
    (a + i) / pageSize = a / pageSize := by
  obtain ⟨k, rfl⟩ := ha
  rw [Nat.mul_add_div hpos, Nat.div_eq_of_lt hi, Nat.add_zero, Nat.mul_div_cancel_left k hpos]

theorem mod_add_of_dvd {a i : Nat} (ha : pageSize ∣ a) (hi : i < pageSize) :
    (a + i) % pageSize = i := by
  obtain ⟨k, rfl⟩ := ha
  rw [Nat.mul_add_mod, Nat.mod_eq_of_lt hi]

/-- The bytes of a page lie in its frame, in the same order. -/
theorem translate_page (hpos : 0 < pageSize) {a i : Nat} (ha : pageSize ∣ a) (hi : i < pageSize) :
    translate pageSize frame (a + i) = frame (a / pageSize) * pageSize + i := by
  rw [translate, div_add_of_dvd hpos ha hi, mod_add_of_dvd ha hi]

theorem mul_add_div_eq (hpos : 0 < pageSize) {f i : Nat} (hi : i < pageSize) :
    (f * pageSize + i) / pageSize = f := by
  rw [Nat.mul_comm, Nat.mul_add_div hpos, Nat.div_eq_of_lt hi, Nat.add_zero]

theorem mul_add_mod_eq {f i : Nat} (hi : i < pageSize) : (f * pageSize + i) % pageSize = i := by
  rw [Nat.mul_comm, Nat.mul_add_mod, Nat.mod_eq_of_lt hi]

/-- A copy of whole words that fill a page, from a page to a page, replaces one frame. -/
theorem copyPage_apply (hpos : 0 < pageSize) (hw : w * n = pageSize) (hsrc : pageSize ∣ src)
    (hdst : pageSize ∣ dst) (x : Nat) :
    copyWords w (translate pageSize frame) n dst src m x =
      if x / pageSize = frame (dst / pageSize) then
        m (frame (src / pageSize) * pageSize + x % pageSize)
      else m x := by
  have hphys : ∀ {a i}, pageSize ∣ a → i < w * n →
      translate pageSize frame (a + i) = frame (a / pageSize) * pageSize + i :=
    fun ha hi => translate_page hpos ha (hw ▸ hi)
  split
  · next hx =>
    have hlt : x % pageSize < w * n := hw.symm ▸ Nat.mod_lt x hpos
    have hxeq : x = translate pageSize frame (dst + x % pageSize) := by
      rw [hphys hdst hlt, ← hx, Nat.div_add_mod']
    conv_lhs => rw [hxeq]
    rw [copyWords_dst hlt, hphys hsrc hlt]
    · intro i hi j hj heq
      rw [hphys hdst hi, hphys hdst hj] at heq
      omega
    · intro i hi j hj heq
      rw [hphys hsrc hi, hphys hdst hj] at heq
      have := congrArg (· % pageSize) heq
      rwa [mul_add_mod_eq (hw ▸ hi), mul_add_mod_eq (hw ▸ hj)] at this
  · next hx =>
    refine copyWords_frame fun i hi heq => hx ?_
    rw [← heq, hphys hdst hi, mul_add_div_eq hpos (hw ▸ hi)]

/-- A store through a page stays in the frame of the page. -/
theorem copyWords_frame_of_page (hpos : 0 < pageSize) (hw : w * n = pageSize)
    (hdst : pageSize ∣ dst) {x : Nat} (hx : x / pageSize ≠ frame (dst / pageSize)) :
    copyWords w (translate pageSize frame) n dst src m x = m x := by
  refine copyWords_frame fun i hi heq => hx ?_
  rw [← heq, translate_page hpos hdst (hw ▸ hi), mul_add_div_eq hpos (hw ▸ hi)]

/-- The first byte of the source, wherever it lies, becomes the first byte of the page's frame. -/
theorem copyWords_page_first (hpos : 0 < pageSize) (hw : w * n = pageSize)
    (hdst : pageSize ∣ dst) :
    copyWords w (translate pageSize frame) n dst src m (frame (dst / pageSize) * pageSize) =
      m (translate pageSize frame src) := by
  have hwn : 0 < w * n := hw ▸ hpos
  have hphys : ∀ {i}, i < w * n →
      translate pageSize frame (dst + i) = frame (dst / pageSize) * pageSize + i :=
    fun hi => translate_page hpos hdst (hw ▸ hi)
  have hinj : ∀ i < w * n, ∀ j < w * n,
      translate pageSize frame (dst + i) = translate pageSize frame (dst + j) → i = j :=
    fun i hi j hj heq => by
      rw [hphys hi, hphys hj] at heq
      omega
  have h0 := hphys hwn
  rw [Nat.add_zero, Nat.add_zero] at h0
  rw [← h0]
  exact copyWords_dst_first (Nat.pos_of_mul_pos_right hwn) (Nat.pos_of_mul_pos_left hwn) hinj

end PagedMemory
