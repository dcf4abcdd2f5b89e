import CyPhOS.Driver.MMUPorts
import Mathlib.Algebra.Order.Floor.Div
import Mathlib.Data.List.Basic
import Mathlib.Data.Nat.ModEq
import Mathlib.Tactic.Ring

/-! # Page coloring

A virtual cache way is a color: a set of frames that share cache sets. `prefetchDataToWay` moves the
pages of a chunk to the frames of a color, `evictCacheWay` moves them back to the frames of their
own numbers.

Both loops are written over the call they make to the MMU, so that they run on the memory as well
as on a list that records the calls. `prefetchDataToWay_eq` and `evictCacheWay_eq` are their closed
forms: one move for each page, in order. The target of page `k` is `colorTarget`, whose frame is
`colorFrame`: with `p` pages per color and `C` colors, after every `p` pages the offset grows by a
period of `p * C` pages, while the `p - 1` single steps before it are never taken back.
-/

namespace CyPhOS

/-- What a port provides for the coloring of the last level cache. -/
structure CacheColoring where
  getHWCacheWayCount : Nat
  getHWCacheWaySize : Nat
  getPagesPerColor : Nat
  mColorsStart : Nat

namespace CacheColoring

open PagedMemory

variable {τ σ : Type*} (mmu : GenericMMU τ) (coloring : CacheColoring)

def getColorCount : Nat :=
  coloring.getHWCacheWaySize / (mmu.getPageSize * coloring.getPagesPerColor)

def getColorSize : Nat :=
  mmu.getPageSize * coloring.getPagesPerColor * coloring.getHWCacheWayCount

/-- `start & ~(pageSize - 1)`, the page size being a power of two. -/
def alignDown (start : Nat) : Nat := start - start % mmu.getPageSize

section
variable (move : σ → Nat → Nat → Bool → σ)

def prefetchLoop (way end_ currentPage colorOffset pageOffset : Nat) (s : σ) : σ :=
  if currentPage < end_ then
    let colorAdditionOffset := way * mmu.getPageSize * coloring.getPagesPerColor + pageOffset
    let s := move s currentPage (coloring.mColorsStart + colorAdditionOffset) true
    let colorOffset := colorOffset + 1
    let pageOffset :=
      if colorOffset % coloring.getPagesPerColor = 0 then
        -- the pages of the color are exhausted here
        pageOffset + mmu.getPageSize * coloring.getPagesPerColor * coloring.getColorCount mmu
      else pageOffset + mmu.getPageSize
    prefetchLoop way end_ (currentPage + mmu.getPageSize) colorOffset pageOffset s
  else s
termination_by end_ - currentPage
decreasing_by
  have := mmu.pageSize_pos
  omega

def prefetchDataToWay (s : σ) (start end_ way : Nat) : σ :=
  prefetchLoop mmu coloring move way end_ (alignDown mmu start) 0 0 s

def evictLoop (end_ currentPage : Nat) (s : σ) : σ :=
  if currentPage < end_ then
    evictLoop end_ (currentPage + mmu.getPageSize) (move s currentPage currentPage false)
  else s
termination_by end_ - currentPage
decreasing_by
  have := mmu.pageSize_pos
  omega

/-- The start is taken as it was recorded for the way. -/
def evictCacheWay (s : σ) (dataStart dataEnd : Nat) : σ :=
  evictLoop mmu move dataEnd dataStart s

end

/-! ## Closed forms of the loops -/

/-- The number of steps of one page from `start` to `end_`. -/
def pageCount (start end_ : Nat) : Nat := (end_ - start) ⌈/⌉ mmu.getPageSize

/-- The offset of page `k` in the frames of a color, in pages. -/
def colorOffset (k : Nat) : Nat :=
  k - k / coloring.getPagesPerColor +
    k / coloring.getPagesPerColor * (coloring.getPagesPerColor * coloring.getColorCount mmu)

/-- The target of page `k` of a chunk in a way, counted in pages from the first color. -/
def colorFrame (way k : Nat) : Nat :=
  way * coloring.getPagesPerColor + coloring.colorOffset mmu k

def colorTarget (way k : Nat) : Nat :=
  coloring.mColorsStart + coloring.colorFrame mmu way k * mmu.getPageSize

variable {mmu coloring}

theorem alignDown_eq (a : Nat) : alignDown mmu a = mmu.page a * mmu.getPageSize := by
  have := Nat.div_add_mod' a mmu.getPageSize
  rw [alignDown, GenericMMU.page]
  omega

theorem dvd_alignDown (a : Nat) : mmu.getPageSize ∣ alignDown mmu a :=
  by
  rw [alignDown_eq]
  exact Nat.dvd_mul_left _ _

theorem alignDown_of_dvd {a : Nat} (h : mmu.getPageSize ∣ a) : alignDown mmu a = a := by
  rw [alignDown_eq, Nat.div_mul_cancel h]

theorem page_add_mul (a k : Nat) : mmu.page (a + k * mmu.getPageSize) = mmu.page a + k :=
  Nat.add_mul_div_right a k mmu.pageSize_pos

theorem page_mul (q : Nat) : mmu.page (q * mmu.getPageSize) = q :=
  Nat.mul_div_cancel q mmu.pageSize_pos

theorem page_alignDown (a : Nat) : mmu.page (alignDown mmu a) = mmu.page a := by
  rw [alignDown_eq, page_mul]

theorem pageCount_eq_zero {start end_ : Nat} (h : end_ ≤ start) : pageCount mmu start end_ = 0 := by
  rw [pageCount, Nat.sub_eq_zero_of_le h, zero_ceilDiv]

theorem lt_pageCount_iff {start end_ k : Nat} :
    k < pageCount mmu start end_ ↔ start + k * mmu.getPageSize < end_ := by
  have hpos := mmu.pageSize_pos
  rw [pageCount, ← not_le, ceilDiv_le_iff_le_mul hpos, Nat.mul_comm]
  omega

theorem pageCount_succ {start end_ : Nat} (h : start < end_) :
    pageCount mmu start end_ = pageCount mmu (start + mmu.getPageSize) end_ + 1 := by
  refine eq_of_forall_lt_iff fun k => ?_
  cases k with
  | zero => simp [lt_pageCount_iff, h]
  | succ k =>
    rw [Nat.succ_lt_succ_iff, lt_pageCount_iff, lt_pageCount_iff, Nat.succ_mul]
    omega

theorem le_of_pageCount_eq_zero {start end_ : Nat} (h : pageCount mmu start end_ = 0) :
    end_ ≤ start := by
  rcases Nat.lt_or_ge start end_ with hlt | hle
  · rw [pageCount_succ hlt] at h
    omega
  · exact hle

theorem pageCount_of_succ {start end_ n : Nat} (h : pageCount mmu start end_ = n + 1) :
    start < end_ ∧ pageCount mmu (start + mmu.getPageSize) end_ = n := by
  rcases Nat.lt_or_ge start end_ with hlt | hle
  · exact ⟨hlt, by rw [pageCount_succ hlt] at h; omega⟩
  · rw [pageCount_eq_zero hle] at h
    omega

theorem colorOffset_zero : coloring.colorOffset mmu 0 = 0 := by simp [colorOffset]

/-- The step of the offset that the loop takes after page `k`. -/
theorem colorOffset_succ (k : Nat) :
    coloring.colorOffset mmu (k + 1) =
      if (k + 1) % coloring.getPagesPerColor = 0 then
        coloring.colorOffset mmu k + coloring.getPagesPerColor * coloring.getColorCount mmu
      else coloring.colorOffset mmu k + 1 := by
  have hle : k / coloring.getPagesPerColor ≤ k := Nat.div_le_self k _
  rw [colorOffset, colorOffset, Nat.succ_div]
  rcases Nat.eq_zero_or_pos ((k + 1) % coloring.getPagesPerColor) with h | h
  · rw [if_pos h, if_pos (Nat.dvd_of_mod_eq_zero h), Nat.add_mul, Nat.one_mul]
    omega
  · rw [if_neg h.ne', if_neg (fun hdvd => h.ne' (Nat.mod_eq_zero_of_dvd hdvd))]
    simp only [Nat.add_zero, Nat.sub_add_comm hle]
    omega

theorem foldl_range_succ (f : σ → Nat → σ) (n : Nat) (s : σ) :
    (List.range (n + 1)).foldl f s = (List.range n).foldl (fun s i => f s (i + 1)) (f s 0) := by
  rw [List.range_succ_eq_map, List.foldl_cons, List.foldl_map]

/-- What holds before the first of `n` steps and is handed on by each holds after the last. -/
theorem foldl_range_induction (P : Nat → σ → Prop) {f : σ → Nat → σ} {n : Nat} {s : σ} (h0 : P 0 s)
    (hstep : ∀ k < n, ∀ s, P k s → P (k + 1) (f s k)) : P n ((List.range n).foldl f s) := by
  induction n with
  | zero => exact h0
  | succ n ih =>
    rw [List.range_succ, List.foldl_append]
    exact hstep n n.lt_succ_self _ (ih fun k hk => hstep k (Nat.lt_succ_of_lt hk))

theorem prefetchLoop_eq (move : σ → Nat → Nat → Bool → σ) (way end_ currentPage k : Nat) (s : σ) :
    prefetchLoop mmu coloring move way end_ currentPage k
        (coloring.colorOffset mmu k * mmu.getPageSize) s =
      (List.range (pageCount mmu currentPage end_)).foldl
        (fun s i => move s (currentPage + i * mmu.getPageSize)
          (coloring.colorTarget mmu way (k + i)) true) s := by
  generalize hn : pageCount mmu currentPage end_ = n
  induction n generalizing currentPage k s with
  | zero =>
    rw [prefetchLoop, if_neg (le_of_pageCount_eq_zero hn).not_gt]
    rfl
  | succ n ih =>
    obtain ⟨hlt, hrest⟩ := pageCount_of_succ hn
    have hoffset : (if (k + 1) % coloring.getPagesPerColor = 0 then
          coloring.colorOffset mmu k * mmu.getPageSize +
            mmu.getPageSize * coloring.getPagesPerColor * coloring.getColorCount mmu
        else coloring.colorOffset mmu k * mmu.getPageSize + mmu.getPageSize) =
          coloring.colorOffset mmu (k + 1) * mmu.getPageSize := by
      rw [colorOffset_succ]
      split <;> ring
    have htarget : coloring.mColorsStart + (way * mmu.getPageSize * coloring.getPagesPerColor +
        coloring.colorOffset mmu k * mmu.getPageSize) = coloring.colorTarget mmu way k := by
      rw [colorTarget, colorFrame]
      ring
    rw [prefetchLoop, if_pos hlt]
    simp only [hoffset, htarget]
    rw [ih _ _ _ hrest, foldl_range_succ]
    congr 1
    · funext s i
      have hpage : currentPage + mmu.getPageSize + i * mmu.getPageSize =
          currentPage + (i + 1) * mmu.getPageSize := by ring
      rw [hpage, Nat.add_assoc k, Nat.add_comm 1 i]
    · rw [Nat.zero_mul, Nat.add_zero, Nat.add_zero]

/-- A prefetch moves the pages of the chunk, from its aligned start on, to the frames of the way. -/
theorem prefetchDataToWay_eq (move : σ → Nat → Nat → Bool → σ) (start end_ way : Nat) (s : σ) :
    prefetchDataToWay mmu coloring move s start end_ way =
      (List.range (pageCount mmu (alignDown mmu start) end_)).foldl
        (fun s i => move s (alignDown mmu start + i * mmu.getPageSize)
          (coloring.colorTarget mmu way i) true) s := by
  have h := @prefetchLoop_eq _ _ mmu coloring move way end_ (alignDown mmu start) 0 s
  simpa only [prefetchDataToWay, colorOffset_zero, Nat.zero_mul, Nat.zero_add] using h

/-- An eviction moves every page back, in steps of a page from the recorded start on. -/
theorem evictCacheWay_eq (move : σ → Nat → Nat → Bool → σ) (dataStart dataEnd : Nat) (s : σ) :
    evictCacheWay mmu move s dataStart dataEnd =
      (List.range (pageCount mmu dataStart dataEnd)).foldl
        (fun s i => move s (dataStart + i * mmu.getPageSize) (dataStart + i * mmu.getPageSize)
          false) s := by
  rw [evictCacheWay]
  generalize hn : pageCount mmu dataStart dataEnd = n
  induction n generalizing dataStart s with
  | zero =>
    rw [evictLoop, if_neg (le_of_pageCount_eq_zero hn).not_gt]
    rfl
  | succ n ih =>
    obtain ⟨hlt, hrest⟩ := pageCount_of_succ hn
    rw [evictLoop, if_pos hlt, ih _ _ hrest, foldl_range_succ]
    congr 1
    · funext s i
      congr 1 <;> ring
    · rw [Nat.zero_mul, Nat.add_zero]

/-! ## Where the pages of a way lie -/

/-- The color of the frame at an address: frames a multiple of `C` groups of `p` apart share it. -/
def colorOf (mmu : GenericMMU τ) (coloring : CacheColoring) (physicalPage : Nat) : Nat :=
  (physicalPage - coloring.mColorsStart) / mmu.getPageSize / coloring.getPagesPerColor %
    coloring.getColorCount mmu

theorem colorFrame_eq (way k : Nat) :
    coloring.colorFrame mmu way k =
      coloring.getPagesPerColor * (way + k / coloring.getPagesPerColor * coloring.getColorCount mmu) +
        (k - k / coloring.getPagesPerColor) := by
  rw [colorFrame, colorOffset]
  ring

/-- The pages of a way drift to the following colors. -/
theorem colorOf_colorTarget (hp : 0 < coloring.getPagesPerColor) (way k : Nat) :
    coloring.colorOf mmu (coloring.colorTarget mmu way k) =
      (way + (k - k / coloring.getPagesPerColor) / coloring.getPagesPerColor) %
        coloring.getColorCount mmu := by
  rw [colorOf, colorTarget, Nat.add_sub_cancel_left, Nat.mul_div_cancel _ mmu.pageSize_pos,
    colorFrame_eq, Nat.mul_add_div hp, Nat.add_right_comm, Nat.add_mul_mod_self_right]

theorem colorOf_eq_way_iff (hp : 0 < coloring.getPagesPerColor) {way : Nat}
    (hway : way < coloring.getColorCount mmu) (k : Nat) :
    coloring.colorOf mmu (coloring.colorTarget mmu way k) = way ↔
      coloring.getColorCount mmu ∣
        (k - k / coloring.getPagesPerColor) / coloring.getPagesPerColor := by
  rw [colorOf_colorTarget hp, ← Nat.add_modEq_left_iff (a := way), Nat.ModEq,
    Nat.mod_eq_of_lt hway]

/-- No color holds pages of two ways, as far as the first `n` pages of each go. -/
def Isolated (mmu : GenericMMU τ) (coloring : CacheColoring) (n : Nat) : Prop :=
  ∀ w < coloring.getColorCount mmu, ∀ w' < coloring.getColorCount mmu, w ≠ w' →
    ∀ k < n, ∀ k' < n, coloring.colorOf mmu (coloring.colorTarget mmu w k) ≠
      coloring.colorOf mmu (coloring.colorTarget mmu w' k')

/-- The first group of a way, and one page of the second, have not drifted. -/
theorem drift_eq_zero {p k : Nat} (hp : 0 < p) (hk : p = 1 ∨ k ≤ p) : (k - k / p) / p = 0 := by
  rcases hk with rfl | hk
  · rw [Nat.div_one, Nat.div_one, Nat.sub_self]
  · rcases hk.lt_or_eq with hlt | rfl
    · rw [Nat.div_eq_of_lt hlt, Nat.sub_zero, Nat.div_eq_of_lt hlt]
    · rw [Nat.div_self hp]
      exact Nat.div_eq_of_lt (Nat.sub_lt hp Nat.one_pos)

/-- The next page lies in the following color. -/
theorem drift_eq_one {p : Nat} (hp : 1 < p) : (p + 1 - (p + 1) / p) / p = 1 := by
  have hdiv : (p + 1) / p = 1 := by
    rw [Nat.add_div_left 1 (by omega), Nat.div_eq_of_lt hp]
  rw [hdiv, Nat.add_sub_cancel, Nat.div_self (by omega)]

theorem isolated_iff (hp : 0 < coloring.getPagesPerColor) (n : Nat) :
    Isolated mmu coloring n ↔
      coloring.getColorCount mmu ≤ 1 ∨ coloring.getPagesPerColor = 1 ∨
        n ≤ coloring.getPagesPerColor + 1 := by
  constructor
  · intro h
    by_contra hcon
    rw [not_or, not_or] at hcon
    obtain ⟨hC, hp1, hn⟩ := hcon
    refine h 0 (by omega) 1 (by omega) Nat.zero_ne_one (coloring.getPagesPerColor + 1) (by omega)
      0 (by omega) ?_
    rw [colorOf_colorTarget hp, colorOf_colorTarget hp, drift_eq_one (by omega), Nat.zero_sub,
      Nat.zero_div]
  · intro h w hw w' hw' hne k hk k' hk'
    have hcolor : ∀ w < coloring.getColorCount mmu, ∀ k < n,
        coloring.colorOf mmu (coloring.colorTarget mmu w k) = w := fun w hw k hk => by
      rw [colorOf_eq_way_iff hp hw]
      rcases h with hC | h
      · rw [show coloring.getColorCount mmu = 1 by omega]
        exact one_dvd _
      · rw [drift_eq_zero hp (h.imp_right fun hn => by omega)]
        exact dvd_zero _
    rw [hcolor w hw k hk, hcolor w' hw' k' hk']
    exact hne

/-- The frames of a way repeat with the length of a period and `p - 1` single steps. -/
theorem colorFrame_eq_period (hp : 0 < coloring.getPagesPerColor) (way k : Nat) :
    coloring.colorFrame mmu way k =
      k / coloring.getPagesPerColor *
          (coloring.getPagesPerColor * coloring.getColorCount mmu + (coloring.getPagesPerColor - 1)) +
        (way * coloring.getPagesPerColor + k % coloring.getPagesPerColor) := by
  have hk := Nat.div_add_mod k coloring.getPagesPerColor
  rw [colorFrame, colorOffset]
  generalize coloring.getPagesPerColor = p at *
  obtain ⟨q, rfl⟩ := Nat.exists_eq_succ_of_ne_zero hp.ne'
  have hsub : k - k / q.succ = k / q.succ * q + k % q.succ := by
    rw [Nat.sub_eq_iff_eq_add (Nat.div_le_self k _)]
    rw [Nat.succ_mul, Nat.mul_comm q] at hk
    omega
  rw [hsub, Nat.succ_sub_one]
  ring

/-- Different pages of the ways have different targets, drift or not. -/
theorem colorFrame_injective (hp : 0 < coloring.getPagesPerColor) {w w' k k' : Nat}
    (hw : w < coloring.getColorCount mmu) (hw' : w' < coloring.getColorCount mmu)
    (h : coloring.colorFrame mmu w k = coloring.colorFrame mmu w' k') : w = w' ∧ k = k' := by
  have hlt : ∀ w k, w < coloring.getColorCount mmu →
      w * coloring.getPagesPerColor + k % coloring.getPagesPerColor <
        coloring.getPagesPerColor * coloring.getColorCount mmu + (coloring.getPagesPerColor - 1) := by
    intro w k hw
    have hmod := Nat.mod_lt k hp
    have hmul := Nat.mul_le_mul_left coloring.getPagesPerColor (Nat.succ_le_of_lt hw)
    rw [Nat.mul_succ, Nat.mul_comm _ w] at hmul
    omega
  have hmod : ∀ {k}, k % coloring.getPagesPerColor < coloring.getPagesPerColor :=
    fun {k} => Nat.mod_lt k hp
  rw [colorFrame_eq_period hp, colorFrame_eq_period hp] at h
  -- the period separates the groups, and the group size the way from the page in the group
  have hgroup := congrArg (· / (coloring.getPagesPerColor * coloring.getColorCount mmu +
    (coloring.getPagesPerColor - 1))) h
  rw [mul_add_div_eq (hlt w k hw).pos (hlt w k hw),
    mul_add_div_eq (hlt w k hw).pos (hlt w' k' hw')] at hgroup
  rw [hgroup, Nat.add_left_cancel_iff] at h
  have hway := congrArg (· / coloring.getPagesPerColor) h
  have hpage := congrArg (· % coloring.getPagesPerColor) h
  rw [mul_add_div_eq hp hmod, mul_add_div_eq hp hmod] at hway
  rw [mul_add_mod_eq hmod, mul_add_mod_eq hmod] at hpage
  refine ⟨hway, ?_⟩
  rw [← Nat.div_add_mod k coloring.getPagesPerColor, hgroup, hpage, Nat.div_add_mod]

/-- A list that records the calls of the loops to the MMU. -/
def recordMove (calls : List (Nat × Nat × Bool)) (virtualPage physicalPage : Nat)
    (cacheable : Bool) : List (Nat × Nat × Bool) :=
  calls ++ [(virtualPage, physicalPage, cacheable)]

/-- The calls of a prefetch, in order. -/
theorem prefetchDataToWay_recordMove (start end_ way : Nat) :
    prefetchDataToWay mmu coloring recordMove [] start end_ way =
      (List.range (pageCount mmu (alignDown mmu start) end_)).map fun k =>
        (alignDown mmu start + k * mmu.getPageSize, coloring.colorTarget mmu way k, true) := by
  rw [prefetchDataToWay_eq]
  simp only [recordMove, List.foldl_append_eq_append, List.nil_append]
  rw [← List.flatMap_def, ← List.map_eq_flatMap]

theorem prefetchDataToWay_getElem {start end_ way k v p : Nat} {c : Bool}
    (h : (prefetchDataToWay mmu coloring recordMove [] start end_ way)[k]? = some (v, p, c)) :
    k < pageCount mmu (alignDown mmu start) end_ ∧ p = coloring.colorTarget mmu way k := by
  rw [prefetchDataToWay_recordMove, List.getElem?_map, Option.map_eq_some_iff] at h
  obtain ⟨i, hi, heq⟩ := h
  obtain ⟨hk, rfl⟩ := List.getElem?_eq_some_iff.mp hi
  rw [List.length_range] at hk
  rw [List.getElem_range, Prod.mk.injEq, Prod.mk.injEq] at heq
  exact ⟨hk, heq.2.1.symm⟩

/-- The `k`-th page that a prefetch moves gets the color of the way if and only if the number of
colors divides the drift; so the pages of different ways share no color if and only if there is
one color, or one page per color, or no chunk is longer than one group and one page. -/
theorem prefetchDataToWay_color (hp : 0 < coloring.getPagesPerColor) {way : Nat}
    (hway : way < coloring.getColorCount mmu) (start end_ : Nat) {k : Nat}
    (hk : k < pageCount mmu (alignDown mmu start) end_) :
    (∃ physicalPage, (prefetchDataToWay mmu coloring recordMove [] start end_ way)[k]? =
        some (alignDown mmu start + k * mmu.getPageSize, physicalPage, true) ∧
      (coloring.colorOf mmu physicalPage = way ↔ coloring.getColorCount mmu ∣
        (k - k / coloring.getPagesPerColor) / coloring.getPagesPerColor)) ∧
    ∀ n, Isolated mmu coloring n ↔ coloring.getColorCount mmu ≤ 1 ∨
      coloring.getPagesPerColor = 1 ∨ n ≤ coloring.getPagesPerColor + 1 := by
  refine ⟨⟨coloring.colorTarget mmu way k, ?_, colorOf_eq_way_iff hp hway k⟩, isolated_iff hp⟩
  rw [prefetchDataToWay_recordMove, List.getElem?_map, List.getElem?_range hk, Option.map_some]

end CacheColoring

open CacheColoring

/-- The coloring of the x86 port, whose linker script provides the start. -/
def x86CacheColoring (__cache_coloring_start : Nat) : CacheColoring where
  getHWCacheWayCount := 20
  getHWCacheWaySize := 512 * 1024
  getPagesPerColor := 2
  mColorsStart := __cache_coloring_start

/-- The coloring of the ARMv7 ports. -/
def armv7CacheColoring (__cache_coloring_start : Nat) : CacheColoring where
  getHWCacheWayCount := 16
  getHWCacheWaySize := 64 * 1024
  getPagesPerColor := 2
  mColorsStart := __cache_coloring_start

theorem prefetchDataToWay_color_fourthPage :
    (∃ physicalPage,
      (prefetchDataToWay x86MMU (x86CacheColoring 0x40000000) recordMove [] 0x100000 0x104000
        5)[3]? = some (0x103000, physicalPage, true) ∧
      ((x86CacheColoring 0x40000000).colorOf x86MMU physicalPage = 5 ↔ 64 ∣ (3 - 3 / 2) / 2)) ∧
    ∀ n, Isolated x86MMU (x86CacheColoring 0x40000000) n ↔ 64 ≤ 1 ∨ 2 = 1 ∨ n ≤ 2 + 1 :=
  prefetchDataToWay_color (by decide) (by decide) 0x100000 0x104000 (by decide)

/-- On the x86 port the fourth page of a chunk goes to the color of the next way. -/
theorem not_prefetchDataToWay_color :
    ¬ ∀ (coloring : CacheColoring) (start end_ way k virtualPage physicalPage : Nat),
      0 < coloring.getPagesPerColor → way < coloring.getColorCount x86MMU →
      (k + 1) * x86MMU.getPageSize ≤ coloring.getColorSize x86MMU →
      (prefetchDataToWay x86MMU coloring recordMove [] start end_ way)[k]? =
        some (virtualPage, physicalPage, true) →
      coloring.colorOf x86MMU physicalPage = way := by
  intro h
  have hcolor := h (x86CacheColoring 0) 0x100000 0x104000 0 3 _ _ (by decide) (by decide)
    (by decide) (by rw [prefetchDataToWay_recordMove]; rfl)
  exact absurd hcolor (by decide)

end CyPhOS
