import CyPhOS.CacheManagement.CacheColoring
import CyPhOS.Lib.Run
import Mathlib.Data.Set.Basic

/-! # The content of colored pages

OSC pages are identity mapped at first, outside the coloring memory. `Sound` says where they may be
later: a page is in its own frame or, for a way filled with a chunk of which it is the `k`-th page,
in frame `k` of the way. By injectivity of the targets no two pages can meet, so every move keeps the
content of all (`Sound.move`), and so do the loops and the runs made of moves.

`coloring_preserves_content` is the result about runs. `evict_restores_iff` says for which chunks an
eviction undoes a prefetch: the prefetch aligns the start of the chunk, the eviction does not.
-/

namespace CyPhOS
namespace CacheColoring

open PagedMemory Transition

variable {τ : Type*} (mmu : GenericMMU τ) (coloring : CacheColoring) (cpus : Set UInt8)
  (oscPages : Set Nat)

/-! ## Systems with a colored cache -/

/-- The OSC pages of a system are addresses of the machine, no CPU's dummy page and no frame of a
color. -/
structure Layout : Prop where
  pagesPerColor_pos : 0 < coloring.getPagesPerColor
  dvd_start : mmu.getPageSize ∣ coloring.mColorsStart
  virtual : ∀ a, mmu.page a ∈ oscPages → mmu.IsVirtual a
  physical : ∀ a, mmu.page a ∈ oscPages → mmu.IsPhysical a
  not_dummy : ∀ cpu ∈ cpus, mmu.page (mmu.getDummyPageAddress cpu) ∉ oscPages
  not_colored : ∀ w < coloring.getColorCount mmu, ∀ k,
    mmu.page (coloring.colorTarget mmu w k) ∉ oscPages

/-- The frames of a way that a chunk of this length needs are addresses of the machine. -/
def TargetsExist (way n : Nat) : Prop :=
  ∀ k < n, mmu.IsVirtual (coloring.colorTarget mmu way k) ∧
    mmu.IsPhysical (coloring.colorTarget mmu way k)

instance [DecidablePred mmu.IsVirtual] [DecidablePred mmu.IsPhysical] (way n : Nat) :
    Decidable (TargetsExist mmu coloring way n) :=
  inferInstanceAs (Decidable (∀ k < n, _ ∧ _))

/-- The page numbers of a chunk are those of the moves of its prefetch. -/
def IsChunk (start end_ : Nat) : Prop :=
  ∀ k < pageCount mmu (alignDown mmu start) end_, mmu.page start + k ∈ oscPages

/-- The machine, the range recorded for each way, and the chunk each way is filled with. -/
structure Machine (τ : Type*) where
  state : GenericMMU.State τ
  dataRange : Nat → Nat × Nat
  filled : Nat → Option (Nat × Nat)

namespace Machine

variable (cpu : UInt8) (m : Machine τ)

/-- A prefetch as `preloadSingleOSC` makes it: it records the range of the chunk. -/
def prefetch (start end_ way : Nat) : Machine τ where
  state := prefetchDataToWay mmu coloring (mmu.moveVirtualPageToPhysicalAddress cpu) m.state start
    end_ way
  dataRange := Function.update m.dataRange way (start, end_)
  filled := Function.update m.filled way (some (start, end_))

def evict (way : Nat) : Machine τ where
  state := evictCacheWay mmu (mmu.moveVirtualPageToPhysicalAddress cpu) m.state
    (m.dataRange way).1 (m.dataRange way).2
  dataRange := m.dataRange
  filled := Function.update m.filled way none

/-- The ways are empty and nothing is recorded. -/
def initial (s : GenericMMU.State τ) : Machine τ where
  state := s
  dataRange := fun _ => (0, 0)
  filled := fun _ => none

end Machine

inductive Op
  | prefetch (cpu : UInt8) (start end_ way : Nat)
  | evict (cpu : UInt8) (way : Nat)

/-- A way is evicted before it is filled with another chunk; chunks are aligned. -/
inductive Step : Machine τ → Op → Machine τ → Prop
  | prefetch {m cpu start end_ way} :
    cpu ∈ cpus → way < coloring.getColorCount mmu → mmu.getPageSize ∣ start →
    IsChunk mmu oscPages start end_ →
    TargetsExist mmu coloring way (pageCount mmu start end_) →
    m.filled way = none ∨ m.filled way = some (start, end_) →
    Step m (.prefetch cpu start end_ way) (m.prefetch mmu coloring cpu start end_ way)
  | evict {m cpu way} : cpu ∈ cpus → Step m (.evict cpu way) (m.evict mmu cpu way)

/-! ## Where the pages are -/

/-- The frames in which page `q` may be: its own, and its frame of a way filled with its chunk. -/
def InPlace (filled : Nat → Option (Nat × Nat)) (q f : Nat) : Prop :=
  f = q ∨ ∃ w < coloring.getColorCount mmu, ∃ start end_ k, filled w = some (start, end_) ∧
    k < pageCount mmu (alignDown mmu start) end_ ∧ q = mmu.page start + k ∧
    f = mmu.page (coloring.colorTarget mmu w k)

/-- The dummy pages are free, every OSC page is in place, and its bytes are `content`. -/
structure Sound (content : Nat → Nat → UInt8) (filled : Nat → Option (Nat × Nat))
    (s : GenericMMU.State τ) : Prop where
  dummy : ∀ cpu ∈ cpus, mmu.IsIdentity s.pageTable (mmu.getDummyPageAddress cpu)
  place : ∀ q ∈ oscPages, InPlace mmu coloring filled q (mmu.frame s.pageTable q)
  content_eq : ∀ q ∈ oscPages, ∀ o < mmu.getPageSize,
    s.memory (mmu.frame s.pageTable q * mmu.getPageSize + o) = content q o

variable {mmu coloring cpus oscPages}

@[simp] theorem Machine.prefetch_dataRange {cpu : UInt8} {m : Machine τ} {start end_ way : Nat} :
    (m.prefetch mmu coloring cpu start end_ way).dataRange =
      Function.update m.dataRange way (start, end_) := rfl

@[simp] theorem Machine.prefetch_filled {cpu : UInt8} {m : Machine τ} {start end_ way : Nat} :
    (m.prefetch mmu coloring cpu start end_ way).filled =
      Function.update m.filled way (some (start, end_)) := rfl

@[simp] theorem Machine.evict_filled {cpu : UInt8} {m : Machine τ} {way : Nat} :
    (m.evict mmu cpu way).filled = Function.update m.filled way none := rfl

theorem page_colorTarget (w k : Nat) :
    mmu.page (coloring.colorTarget mmu w k) =
      mmu.page coloring.mColorsStart + coloring.colorFrame mmu w k := by
  rw [colorTarget, page_add_mul]

theorem dvd_colorTarget (hdvd : mmu.getPageSize ∣ coloring.mColorsStart) (w k : Nat) :
    mmu.getPageSize ∣ coloring.colorTarget mmu w k :=
  Nat.dvd_add hdvd (Nat.dvd_mul_left _ _)

section
variable {content : Nat → Nat → UInt8} {filled filled' : Nat → Option (Nat × Nat)}
  {s : GenericMMU.State τ} {cpu : UInt8} (layout : Layout mmu coloring cpus oscPages)

theorem InPlace.mono {q f : Nat} (h : InPlace mmu coloring filled q f)
    (hmono : ∀ w c, filled w = some c → filled' w = some c) :
    InPlace mmu coloring filled' q f := by
  rcases h with h | ⟨w, hw, start, end_, k, hfilled, h⟩
  · exact .inl h
  · exact .inr ⟨w, hw, start, end_, k, hmono w _ hfilled, h⟩

/-- A way can be declared empty once the pages of its chunk are in their own frames. -/
theorem Sound.emptied {way : Nat} (h : Sound mmu coloring cpus oscPages content filled s)
    (hback : ∀ start end_ k, filled way = some (start, end_) →
      k < pageCount mmu (alignDown mmu start) end_ →
      mmu.frame s.pageTable (mmu.page start + k) = mmu.page start + k) :
    Sound mmu coloring cpus oscPages content (Function.update filled way none) s := by
  refine ⟨h.dummy, fun q hq => ?_, h.content_eq⟩
  rcases h.place q hq with hid | ⟨w, hw, start, end_, k, hfilled, hk, rfl, hframe⟩
  · exact .inl hid
  · rcases eq_or_ne w way with rfl | hne
    · exact .inl (hback start end_ k hfilled hk)
    · exact .inr ⟨w, hw, start, end_, k, by rwa [Function.update_of_ne hne], hk, rfl, hframe⟩

include layout

theorem Layout.mul_virtual {q : Nat} (hq : q ∈ oscPages) :
    mmu.IsVirtual (q * mmu.getPageSize) :=
  layout.virtual _ (by rwa [page_mul])

/-- No two OSC pages are in place in the same frame. -/
theorem InPlace.unique {q q' f : Nat} (hq : q ∈ oscPages) (hq' : q' ∈ oscPages)
    (h : InPlace mmu coloring filled q f) (h' : InPlace mmu coloring filled q' f) : q = q' := by
  rcases h with rfl | ⟨w, hw, start, end_, k, hfilled, -, rfl, rfl⟩
  · rcases h' with h' | ⟨w, hw, start, end_, k, -, -, -, rfl⟩
    · exact h'
    · exact absurd hq (layout.not_colored w hw k)
  · rcases h' with h' | ⟨w', hw', start', end_', k', hfilled', -, rfl, heq⟩
    · exact absurd (h' ▸ hq') (layout.not_colored w hw k)
    · rw [page_colorTarget, page_colorTarget] at heq
      obtain ⟨rfl, rfl⟩ := colorFrame_injective layout.pagesPerColor_pos hw hw'
        (Nat.add_left_cancel heq)
      rw [hfilled, Option.some.injEq, Prod.mk.injEq] at hfilled'
      rw [hfilled'.1]

theorem Sound.movable {v p : Nat} (h : Sound mmu coloring cpus oscPages content filled s)
    (hcpu : cpu ∈ cpus) (hq : mmu.page v ∈ oscPages) (hpv : mmu.IsVirtual p)
    (hpp : mmu.IsPhysical p) : mmu.Movable cpu s.pageTable v p where
  virtual := layout.virtual v hq
  target_virtual := hpv
  target_physical := hpp
  not_dummy heq := layout.not_dummy cpu hcpu (heq ▸ hq)
  dummy := h.dummy cpu hcpu

/-- A move of an OSC page to a frame where it may be keeps every page in place and its content. -/
theorem Sound.move {v p : Nat} {c : Bool} (h : Sound mmu coloring cpus oscPages content filled s)
    (hcpu : cpu ∈ cpus) (hq : mmu.page v ∈ oscPages) (hpv : mmu.IsVirtual p)
    (hpp : mmu.IsPhysical p) (hv : mmu.getPageSize ∣ v) (hp : mmu.getPageSize ∣ p)
    (hplace : InPlace mmu coloring filled (mmu.page v) (mmu.page p)) :
    Sound mmu coloring cpus oscPages content filled
      (mmu.moveVirtualPageToPhysicalAddress cpu s v p c) := by
  have hmoved := GenericMMU.move_moved (c := c) (h.movable layout hcpu hq hpv hpp) hv hp
  have hother : ∀ q ∈ oscPages, q ≠ mmu.page v →
      mmu.frame (mmu.moveVirtualPageToPhysicalAddress cpu s v p c).pageTable q =
        mmu.frame s.pageTable q := fun q hq' hne => by
    have := hmoved.frame_of_ne _ (layout.mul_virtual hq') (by rwa [page_mul])
    rwa [page_mul] at this
  refine ⟨fun cpu' hcpu' => ?_, fun q hq' => ?_, fun q hq' o ho => ?_⟩
  · have hne : mmu.page (mmu.getDummyPageAddress cpu') ≠ mmu.page v := fun heq =>
      layout.not_dummy cpu' hcpu' (heq ▸ hq)
    rw [GenericMMU.IsIdentity, hmoved.frame_of_ne _ mmu.isVirtual_dummy hne]
    exact h.dummy cpu' hcpu'
  · rcases eq_or_ne q (mmu.page v) with rfl | hne
    · rwa [hmoved.frame_eq]
    · rw [hother q hq' hne]
      exact h.place q hq'
  · rcases eq_or_ne q (mmu.page v) with rfl | hne
    · have hread := hmoved.content o ho
      rw [GenericMMU.read_page hv ho, GenericMMU.read_page hv ho] at hread
      rw [hread, h.content_eq _ hq o ho]
    · -- the target frame is not the one of another page
      have hframe : mmu.frame s.pageTable q ≠ mmu.page p := fun heq =>
        hne (InPlace.unique layout hq' hq (heq ▸ h.place q hq') hplace)
      rw [hother q hq' hne, hmoved.memory_of_ne, h.content_eq q hq' o ho]
      rwa [GenericMMU.page, mul_add_div_eq mmu.pageSize_pos ho]

/-- A prefetch into a way that is filled with the chunk leaves its pages in the frames of the way. -/
theorem Sound.prefetch {start end_ way : Nat}
    (h : Sound mmu coloring cpus oscPages content filled s) (hcpu : cpu ∈ cpus)
    (hway : way < coloring.getColorCount mmu) (hchunk : IsChunk mmu oscPages start end_)
    (htargets : TargetsExist mmu coloring way (pageCount mmu (alignDown mmu start) end_))
    (hfilled : filled way = some (start, end_)) :
    let s' := prefetchDataToWay mmu coloring (mmu.moveVirtualPageToPhysicalAddress cpu) s start
      end_ way
    Sound mmu coloring cpus oscPages content filled s' ∧
      ∀ k < pageCount mmu (alignDown mmu start) end_, mmu.frame s'.pageTable (mmu.page start + k) =
        mmu.page (coloring.colorTarget mmu way k) := by
  rw [prefetchDataToWay_eq]
  refine foldl_range_induction (fun n s => Sound mmu coloring cpus oscPages content filled s ∧
    ∀ k < n, mmu.frame s.pageTable (mmu.page start + k) =
      mmu.page (coloring.colorTarget mmu way k)) ⟨h, fun k hk => absurd hk k.not_lt_zero⟩ ?_
  intro n hn s ⟨h, hdone⟩
  have hpage : mmu.page (alignDown mmu start + n * mmu.getPageSize) = mmu.page start + n := by
    rw [page_add_mul, page_alignDown]
  have hq : mmu.page (alignDown mmu start + n * mmu.getPageSize) ∈ oscPages := hpage ▸ hchunk n hn
  obtain ⟨hvirtual, hphysical⟩ := htargets n hn
  have hv : mmu.getPageSize ∣ alignDown mmu start + n * mmu.getPageSize :=
    Nat.dvd_add (dvd_alignDown start) (Nat.dvd_mul_left _ _)
  refine ⟨h.move layout hcpu hq hvirtual hphysical hv (dvd_colorTarget layout.dvd_start way n)
    (.inr ⟨way, hway, start, end_, n, hfilled, hn, hpage, rfl⟩), fun k hk => ?_⟩
  have hk' : k < pageCount mmu (alignDown mmu start) end_ := by omega
  have hframe := GenericMMU.move_frame (c := true) (h.movable layout hcpu hq hvirtual hphysical)
    (layout.mul_virtual (hchunk k hk'))
  rw [page_mul, hpage] at hframe
  rw [hframe]
  rcases Nat.lt_succ_iff_lt_or_eq.mp hk with hlt | rfl
  · rw [if_neg (by omega), hdone k hlt]
  · rw [if_pos rfl]

/-- An eviction of an aligned chunk leaves its pages in their own frames. -/
theorem Sound.evict {start end_ : Nat} (h : Sound mmu coloring cpus oscPages content filled s)
    (hcpu : cpu ∈ cpus) (hstart : mmu.getPageSize ∣ start)
    (hchunk : IsChunk mmu oscPages start end_) :
    let s' := evictCacheWay mmu (mmu.moveVirtualPageToPhysicalAddress cpu) s start end_
    Sound mmu coloring cpus oscPages content filled s' ∧
      ∀ k < pageCount mmu start end_, mmu.frame s'.pageTable (mmu.page start + k) =
        mmu.page start + k := by
  rw [evictCacheWay_eq]
  rw [IsChunk, alignDown_of_dvd hstart] at hchunk
  refine foldl_range_induction (fun n s => Sound mmu coloring cpus oscPages content filled s ∧
    ∀ k < n, mmu.frame s.pageTable (mmu.page start + k) = mmu.page start + k)
    ⟨h, fun k hk => absurd hk k.not_lt_zero⟩ ?_
  intro n hn s ⟨h, hdone⟩
  have hpage : mmu.page (start + n * mmu.getPageSize) = mmu.page start + n := page_add_mul start n
  have hq : mmu.page (start + n * mmu.getPageSize) ∈ oscPages := hpage ▸ hchunk n hn
  have hv : mmu.getPageSize ∣ start + n * mmu.getPageSize :=
    Nat.dvd_add hstart (Nat.dvd_mul_left _ _)
  refine ⟨h.move layout hcpu hq (layout.virtual _ hq) (layout.physical _ hq) hv hv (.inl rfl),
    fun k hk => ?_⟩
  have hk' : k < pageCount mmu start end_ := by omega
  have hframe := GenericMMU.move_frame (c := false) (h.movable layout hcpu hq
    (layout.virtual _ hq) (layout.physical _ hq)) (layout.mul_virtual (hchunk k hk'))
  rw [page_mul, hpage] at hframe
  rw [hframe]
  rcases Nat.lt_succ_iff_lt_or_eq.mp hk with hlt | rfl
  · rw [if_neg (by omega), hdone k hlt]
  · rw [if_pos rfl]

end

/-! ## Runs -/

/-- What holds between the operations: pages are in place, and a filled way has its chunk on
record. -/
structure Machine.Inv (mmu : GenericMMU τ) (coloring : CacheColoring) (cpus : Set UInt8)
    (oscPages : Set Nat) (content : Nat → Nat → UInt8) (m : Machine τ) : Prop where
  sound : Sound mmu coloring cpus oscPages content m.filled m.state
  recorded : ∀ w c, m.filled w = some c → m.dataRange w = c
  aligned : ∀ w, mmu.getPageSize ∣ (m.dataRange w).1
  chunk : ∀ w, IsChunk mmu oscPages (m.dataRange w).1 (m.dataRange w).2

section
variable {content : Nat → Nat → UInt8} {m m' : Machine τ} {op : Op}
  (layout : Layout mmu coloring cpus oscPages)

/-- An empty range has no pages. -/
theorem isChunk_empty : IsChunk mmu oscPages 0 0 := fun k hk => by
  rw [alignDown_eq, lt_pageCount_iff] at hk
  exact absurd hk (Nat.not_lt_zero _)

theorem Machine.Inv.initial {s : GenericMMU.State τ}
    (hdummy : ∀ cpu ∈ cpus, mmu.IsIdentity s.pageTable (mmu.getDummyPageAddress cpu))
    (hid : ∀ q ∈ oscPages, mmu.frame s.pageTable q = q) :
    (Machine.initial s).Inv mmu coloring cpus oscPages
      fun q o => s.memory (q * mmu.getPageSize + o) where
  sound := ⟨hdummy, fun q hq => .inl (hid q hq), fun q hq o _ => by
    rw [Machine.initial, hid q hq]⟩
  recorded _ _ h := nomatch h
  aligned _ := Nat.dvd_zero _
  chunk _ := isChunk_empty

include layout

theorem Machine.Inv.step (h : m.Inv mmu coloring cpus oscPages content)
    (hstep : Step mmu coloring cpus oscPages m op m') :
    m'.Inv mmu coloring cpus oscPages content := by
  cases hstep with
  | @prefetch cpu start end_ way hcpu hway hstart hchunk htargets hfree =>
    have hmono : ∀ w c, m.filled w = some c →
        Function.update m.filled way (some (start, end_)) w = some c := by
      intro w c hfilled
      rcases eq_or_ne w way with rfl | hne
      · rw [Function.update_self]
        rcases hfree with hnone | hsome
        · exact absurd (hnone.symm.trans hfilled) (by simp)
        · exact hsome.symm.trans hfilled
      · rwa [Function.update_of_ne hne]
    have hfilled : Sound mmu coloring cpus oscPages content
        (Function.update m.filled way (some (start, end_))) m.state :=
      ⟨h.sound.dummy, fun q hq => (h.sound.place q hq).mono hmono, h.sound.content_eq⟩
    rw [← alignDown_of_dvd hstart] at htargets
    refine ⟨(hfilled.prefetch layout hcpu hway hchunk htargets (Function.update_self ..)).1,
      fun w c hc => ?_, fun w => ?_, fun w => ?_⟩
    all_goals rcases eq_or_ne w way with rfl | hne
    · rw [Machine.prefetch_filled, Function.update_self, Option.some.injEq] at hc
      rw [Machine.prefetch_dataRange, Function.update_self, hc]
    · rw [Machine.prefetch_filled, Function.update_of_ne hne] at hc
      rw [Machine.prefetch_dataRange, Function.update_of_ne hne]
      exact h.recorded w c hc
    · rwa [Machine.prefetch_dataRange, Function.update_self]
    · rw [Machine.prefetch_dataRange, Function.update_of_ne hne]
      exact h.aligned w
    · rwa [Machine.prefetch_dataRange, Function.update_self]
    · rw [Machine.prefetch_dataRange, Function.update_of_ne hne]
      exact h.chunk w
  | @evict cpu way hcpu =>
    obtain ⟨hsound, hback⟩ := h.sound.evict layout hcpu (h.aligned way) (h.chunk way)
    refine ⟨hsound.emptied fun start end_ k hfilled hk => ?_, fun w c hc => ?_, h.aligned,
      h.chunk⟩
    · -- the chunk the way was filled with is the one on record
      have hrange := h.recorded way _ hfilled
      have hstart := h.aligned way
      rw [hrange] at hstart hback
      rw [alignDown_of_dvd hstart] at hk
      rw [hrange]
      exact hback k hk
    · rcases eq_or_ne w way with rfl | hne
      · rw [Machine.evict_filled, Function.update_self] at hc
        exact nomatch hc
      · rw [Machine.evict_filled, Function.update_of_ne hne] at hc
        exact h.recorded w c hc

end

/-- Different pages of two ways are moved to different frames, and no run of prefetches and
evictions changes what is read at an address of an OSC page. -/
theorem coloring_preserves_content (hp : 0 < coloring.getPagesPerColor) :
    (∀ w < coloring.getColorCount mmu, ∀ w' < coloring.getColorCount mmu,
      ∀ start end_ start' end_' k k' v p v' p' : Nat,
        (prefetchDataToWay mmu coloring recordMove [] start end_ w)[k]? = some (v, p, true) →
        (prefetchDataToWay mmu coloring recordMove [] start' end_' w')[k']? = some (v', p', true) →
        mmu.page p = mmu.page p' → w = w' ∧ k = k') ∧
    ∀ (cpus : Set UInt8) (oscPages : Set Nat) (s : GenericMMU.State τ) (ops : List Op)
      (m : Machine τ), Layout mmu coloring cpus oscPages →
      (∀ cpu ∈ cpus, mmu.IsIdentity s.pageTable (mmu.getDummyPageAddress cpu)) →
      (∀ q ∈ oscPages, mmu.frame s.pageTable q = q) →
      Run (Step mmu coloring cpus oscPages) (Machine.initial s) ops m →
      ∀ a, mmu.page a ∈ oscPages → mmu.read m.state a = mmu.read s a := by
  refine ⟨fun w hw w' hw' start end_ start' end_' k k' v p v' p' hcall hcall' hpage => ?_,
    fun cpus oscPages s ops m layout hdummy hid hrun a ha => ?_⟩
  · have hcall := prefetchDataToWay_getElem hcall
    have hcall' := prefetchDataToWay_getElem hcall'
    rw [hcall.2, hcall'.2, page_colorTarget, page_colorTarget] at hpage
    exact colorFrame_injective hp hw hw' (Nat.add_left_cancel hpage)
  · have hinv := hrun.invariant (Machine.Inv.initial hdummy hid) fun h hstep => h.step layout hstep
    have hread : ∀ s : GenericMMU.State τ, mmu.read s a =
        s.memory (mmu.frame s.pageTable (mmu.page a) * mmu.getPageSize + a % mmu.getPageSize) :=
      fun s => rfl
    rw [hread, hread, hid _ ha]
    exact hinv.sound.content_eq _ ha _ (Nat.mod_lt a mmu.pageSize_pos)

/-- On x86, any pages between the dummy pages and the coloring memory can be OSC pages. -/
theorem x86_layout {oscPages : Set Nat} (h : ∀ q ∈ oscPages, 0x100 ≤ q ∧ q < 0x40000) :
    Layout x86MMU (x86CacheColoring 0x40000000) Set.univ oscPages where
  pagesPerColor_pos := by decide
  dvd_start := by decide
  virtual a ha := by
    have := h _ ha
    change 0x100 ≤ a / 4096 ∧ a / 4096 < 0x40000 at this
    change a < 4 * 2 ^ 30
    omega
  physical a ha := by
    have := h _ ha
    change 0x100 ≤ a / 4096 ∧ a / 4096 < 0x40000 at this
    change a < 2 ^ 52
    omega
  not_dummy cpu _ hmem := by
    have := h _ hmem
    have hcpu := cpu.toNat_lt
    change 0x100 ≤ (0 + 4096 * cpu.toNat) / 4096 ∧ _ at this
    omega
  not_colored w _ k hmem := by
    have := h _ hmem
    rw [page_colorTarget] at this
    change _ ∧ 0x40000000 / 4096 + _ < 0x40000 at this
    omega

/-- A chunk of two pages in and out of way 5. -/
theorem coloring_preserves_content_twoPages :
    let s : GenericMMU.State X86MMU.X86Pagetable :=
      { pageTable := X86MMU.fillLinear, memory := fun a => a.toUInt8 }
    let coloring := x86CacheColoring 0x40000000
    let m := ((Machine.initial s).prefetch x86MMU coloring 0 0x100000 0x102000 5).evict x86MMU 1 5
    ∀ a, x86MMU.page a ∈ {q | 0x100 ≤ q ∧ q < 0x102} → x86MMU.read m.state a = x86MMU.read s a := by
  intro s coloring m
  have hosc : ∀ q ∈ {q | 0x100 ≤ q ∧ q < 0x102}, 0x100 ≤ q ∧ q < 0x40000 := fun q hq =>
    ⟨hq.1, hq.2.trans (by decide)⟩
  refine (coloring_preserves_content (by decide)).2 Set.univ {q | 0x100 ≤ q ∧ q < 0x102} s
    ([.prefetch 0 0x100000 0x102000 5] ++ [.evict 1 5]) m (x86_layout hosc)
    (fun cpu _ => x86MMU.frame_fillLinear x86MMU.isVirtual_dummy) (fun q hq => ?_) ?_
  · have := x86MMU.frame_fillLinear ((x86_layout hosc).mul_virtual hq)
    rwa [← GenericMMU.page, page_mul] at this
  · refine (Run.single (.prefetch trivial (by decide) (by decide) (fun k hk => ?_)
      (by decide) (.inl rfl))).append (Run.single (.evict trivial))
    have hcount : pageCount x86MMU (alignDown x86MMU 0x100000) 0x102000 = 2 := by decide
    have hpage : x86MMU.page 0x100000 = 0x100 := by decide
    rw [hcount] at hk
    rw [hpage]
    exact ⟨by omega, by omega⟩

end CacheColoring
end CyPhOS
