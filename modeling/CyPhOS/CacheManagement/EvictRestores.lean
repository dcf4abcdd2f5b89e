import CyPhOS.CacheManagement.ColoringRuns

/-! # Evicting what was prefetched

A prefetch enumerates the pages of a chunk from its aligned start, the eviction in steps of a page
from the start on record. For an aligned start the two meet and every page returns
(`restores_of_dvd`). For another start the eviction reads each page from the offset of the start on
and writes it to the frame from its beginning: the byte at the start of the chunk becomes the first
byte of its page (`evict_first_byte`).
-/

namespace CyPhOS
namespace CacheColoring

open PagedMemory

variable {τ : Type*} (mmu : GenericMMU τ) (coloring : CacheColoring) (cpu : UInt8)

/-- The pages that meet a range of addresses. -/
def pagesOf (start end_ : Nat) : Set Nat := {q | ∃ a, start ≤ a ∧ a < end_ ∧ mmu.page a = q}

/-- Prefetch, record and eviction of an identity mapped chunk leave the pages that meet it identity
mapped and every byte of them unchanged. -/
def Restores (start end_ way : Nat) : Prop :=
  ∀ m : Machine τ, (∀ q ∈ pagesOf mmu start end_, mmu.frame m.state.pageTable q = q) →
    mmu.IsIdentity m.state.pageTable (mmu.getDummyPageAddress cpu) →
    let m' := (m.prefetch mmu coloring cpu start end_ way).evict mmu cpu way
    ∀ q ∈ pagesOf mmu start end_, mmu.frame m'.state.pageTable q = q ∧
      ∀ o < mmu.getPageSize, mmu.read m'.state (q * mmu.getPageSize + o) =
        mmu.read m.state (q * mmu.getPageSize + o)

variable {mmu coloring cpu} {start end_ way : Nat}

theorem Machine.evict_prefetch_state {m : Machine τ} :
    ((m.prefetch mmu coloring cpu start end_ way).evict mmu cpu way).state =
      evictCacheWay mmu (mmu.moveVirtualPageToPhysicalAddress cpu)
        (prefetchDataToWay mmu coloring (mmu.moveVirtualPageToPhysicalAddress cpu) m.state start
          end_ way) start end_ := by
  rw [Machine.evict, Machine.prefetch_dataRange, Function.update_self]
  rfl

/-- The moves of a prefetch are those of the pages that meet the chunk. -/
theorem mem_pagesOf_iff (hlt : start < end_) {q : Nat} :
    q ∈ pagesOf mmu start end_ ↔
      ∃ k < pageCount mmu (alignDown mmu start) end_, q = mmu.page start + k := by
  have hround : ∀ a, mmu.page a * mmu.getPageSize ≤ a ∧
      a < mmu.page a * mmu.getPageSize + mmu.getPageSize := fun a =>
    ⟨Nat.div_mul_le_self a _, Nat.lt_div_mul_add mmu.pageSize_pos⟩
  constructor
  · rintro ⟨a, hstart, hend, rfl⟩
    have hpage : mmu.page start ≤ mmu.page a := Nat.div_le_div_right hstart
    obtain ⟨k, hk⟩ := Nat.exists_eq_add_of_le hpage
    refine ⟨k, lt_pageCount_iff.mpr ?_, hk⟩
    have := (hround a).1
    rw [alignDown_eq, ← Nat.add_mul, ← hk]
    omega
  · rintro ⟨k, hk, rfl⟩
    rw [lt_pageCount_iff] at hk
    cases k with
    | zero => exact ⟨start, le_rfl, hlt, rfl⟩
    | succ k =>
      refine ⟨alignDown mmu start + (k + 1) * mmu.getPageSize, ?_, hk, ?_⟩
      · have := (hround start).2
        rw [alignDown_eq, Nat.succ_mul]
        omega
      · rw [page_add_mul, page_alignDown]

theorem isChunk_pagesOf (hlt : start < end_) :
    IsChunk mmu (pagesOf mmu start end_) start end_ := fun k hk =>
  (mem_pagesOf_iff hlt).mpr ⟨k, hk, rfl⟩

section
variable (layout : Layout mmu coloring {cpu} (pagesOf mmu start end_))
include layout

/-- The prefetch of an identity mapped chunk brings its pages to the frames of the way. -/
theorem sound_prefetch (hlt : start < end_) (hway : way < coloring.getColorCount mmu)
    (htargets : TargetsExist mmu coloring way (pageCount mmu (alignDown mmu start) end_))
    {s : GenericMMU.State τ}
    (hid : ∀ q ∈ pagesOf mmu start end_, mmu.frame s.pageTable q = q)
    (hdummy : mmu.IsIdentity s.pageTable (mmu.getDummyPageAddress cpu)) :
    let s' := prefetchDataToWay mmu coloring (mmu.moveVirtualPageToPhysicalAddress cpu) s start
      end_ way
    Sound mmu coloring {cpu} (pagesOf mmu start end_)
        (fun q o => s.memory (q * mmu.getPageSize + o))
        (Function.update (fun _ => none) way (some (start, end_))) s' ∧
      ∀ k < pageCount mmu (alignDown mmu start) end_, mmu.frame s'.pageTable (mmu.page start + k) =
        mmu.page (coloring.colorTarget mmu way k) := by
  have hinitial : Sound mmu coloring {cpu} (pagesOf mmu start end_)
      (fun q o => s.memory (q * mmu.getPageSize + o))
      (Function.update (fun _ => none) way (some (start, end_))) s := by
    refine ⟨fun cpu' hcpu' => ?_, fun q hq => .inl (hid q hq), fun q hq o _ => by rw [hid q hq]⟩
    rw [Set.mem_singleton_iff.mp hcpu']
    exact hdummy
  exact hinitial.prefetch layout rfl hway (isChunk_pagesOf hlt) htargets (Function.update_self ..)

/-- An eviction from an aligned start undoes the prefetch. -/
theorem restores_of_dvd (hlt : start < end_) (hway : way < coloring.getColorCount mmu)
    (htargets : TargetsExist mmu coloring way (pageCount mmu (alignDown mmu start) end_))
    (hdvd : mmu.getPageSize ∣ start) : Restores mmu coloring cpu start end_ way := by
  intro m hid hdummy m' q hq
  have hprefetched := (sound_prefetch layout hlt hway htargets hid hdummy).1
  obtain ⟨hsound, hback⟩ := hprefetched.evict layout rfl hdvd (isChunk_pagesOf hlt)
  rw [← Machine.evict_prefetch_state] at hsound hback
  obtain ⟨k, hk, rfl⟩ := (mem_pagesOf_iff hlt).mp hq
  rw [alignDown_of_dvd hdvd] at hk
  have hframe := hback k hk
  refine ⟨hframe, fun o ho => ?_⟩
  have hcontent := hsound.content_eq _ hq o ho
  rw [GenericMMU.read_page (Nat.dvd_mul_left _ _) ho, GenericMMU.read_page (Nat.dvd_mul_left _ _) ho,
    page_mul, hid _ hq]
  exact hcontent

end

/-- Where `n` moves of an eviction lead from `s`, before which the chunk is in the way: the pages
not yet reached are still there, and the first page is back, beginning with the byte at `start`. -/
structure Progress (mmu : GenericMMU τ) (coloring : CacheColoring) (cpu : UInt8)
    (start end_ way : Nat) (s : GenericMMU.State τ) (n : Nat) (s' : GenericMMU.State τ) : Prop where
  dummy : mmu.IsIdentity s'.pageTable (mmu.getDummyPageAddress cpu)
  rest : ∀ k, n ≤ k → k < pageCount mmu (alignDown mmu start) end_ →
    mmu.frame s'.pageTable (mmu.page start + k) = mmu.page (coloring.colorTarget mmu way k)
  none : n = 0 → s' = s
  first : 0 < n → mmu.frame s'.pageTable (mmu.page start) = mmu.page start ∧
    s'.memory (mmu.page start * mmu.getPageSize) = mmu.read s start

section
variable (layout : Layout mmu coloring {cpu} (pagesOf mmu start end_))
include layout

/-- The pages not yet reached are no longer in their own frames, so every move uses the dummy
page and writes from the beginning of a frame. -/
theorem Progress.step {s s' : GenericMMU.State τ} {n : Nat} (hlt : start < end_)
    (hway : way < coloring.getColorCount mmu)
    (hn : n < pageCount mmu (alignDown mmu start) end_)
    (h : Progress mmu coloring cpu start end_ way s n s') :
    Progress mmu coloring cpu start end_ way s (n + 1)
      (mmu.moveVirtualPageToPhysicalAddress cpu s' (start + n * mmu.getPageSize)
        (start + n * mmu.getPageSize) false) := by
  have hchunk : IsChunk mmu (pagesOf mmu start end_) start end_ := isChunk_pagesOf hlt
  have hpage : mmu.page (start + n * mmu.getPageSize) = mmu.page start + n := page_add_mul start n
  have hq : mmu.page (start + n * mmu.getPageSize) ∈ pagesOf mmu start end_ := hpage ▸ hchunk n hn
  have hne : mmu.page (mmu.getDummyPageAddress cpu) ≠ mmu.page (start + n * mmu.getPageSize) :=
    fun heq => layout.not_dummy cpu rfl (heq ▸ hq)
  have hmov : mmu.Movable cpu s'.pageTable (start + n * mmu.getPageSize)
      (start + n * mmu.getPageSize) :=
    ⟨layout.virtual _ hq, layout.virtual _ hq, layout.physical _ hq, hne.symm, h.dummy⟩
  have hmoved : ¬ mmu.IsIdentity s'.pageTable (start + n * mmu.getPageSize) := fun hid => by
    rw [GenericMMU.IsIdentity, hpage, h.rest n le_rfl hn] at hid
    exact layout.not_colored way hway n (hid ▸ hpage ▸ hq)
  have hframe : ∀ k < pageCount mmu (alignDown mmu start) end_,
      mmu.frame (mmu.moveVirtualPageToPhysicalAddress cpu s' (start + n * mmu.getPageSize)
        (start + n * mmu.getPageSize) false).pageTable (mmu.page start + k) =
      if k = n then mmu.page start + n else mmu.frame s'.pageTable (mmu.page start + k) := by
    intro k hk
    have := GenericMMU.move_frame (c := false) hmov (layout.mul_virtual (hchunk k hk))
    simpa only [page_mul, hpage, Nat.add_left_cancel_iff] using this
  have hframe0 := hframe 0 (Nat.zero_lt_of_lt hn)
  rw [Nat.add_zero] at hframe0
  refine ⟨?_, fun k hle hk => ?_, fun h => absurd h n.succ_ne_zero, fun _ => ?_⟩
  · rw [GenericMMU.IsIdentity, GenericMMU.move_frame hmov mmu.isVirtual_dummy, if_neg hne]
    exact h.dummy
  · rw [hframe k hk, if_neg (by omega), h.rest k (by omega) hk]
  · rcases Nat.eq_zero_or_pos n with rfl | hpos
    · obtain rfl := h.none rfl
      have hfirst := GenericMMU.move_memory_first (c := false) hmov (.inr hmoved)
      rw [hpage] at hfirst
      refine ⟨hframe0.trans (if_pos rfl), ?_⟩
      simpa only [Nat.zero_mul, Nat.add_zero] using hfirst
    · obtain ⟨hid, hbyte⟩ := h.first hpos
      refine ⟨hframe0.trans ((if_neg hpos.ne).trans hid), ?_⟩
      rw [GenericMMU.move_memory_of_ne hmov (.inr hmoved), hbyte]
      rw [page_mul, hpage]
      omega

/-- The eviction from an unaligned start puts the byte at the start to the beginning of its page. -/
theorem evict_first_byte (hlt : start < end_) (hway : way < coloring.getColorCount mmu)
    {s : GenericMMU.State τ}
    (hdummy : mmu.IsIdentity s.pageTable (mmu.getDummyPageAddress cpu))
    (hplace : ∀ k < pageCount mmu (alignDown mmu start) end_,
      mmu.frame s.pageTable (mmu.page start + k) = mmu.page (coloring.colorTarget mmu way k)) :
    let s' := evictCacheWay mmu (mmu.moveVirtualPageToPhysicalAddress cpu) s start end_
    mmu.frame s'.pageTable (mmu.page start) = mmu.page start ∧
      s'.memory (mmu.page start * mmu.getPageSize) = mmu.read s start := by
  have hcount : ∀ k < pageCount mmu start end_, k < pageCount mmu (alignDown mmu start) end_ :=
    fun k hk => by
      have := Nat.sub_le start (start % mmu.getPageSize)
      rw [lt_pageCount_iff] at hk ⊢
      rw [alignDown]
      omega
  rw [evictCacheWay_eq]
  have hprogress := foldl_range_induction (n := pageCount mmu start end_)
    (Progress mmu coloring cpu start end_ way s)
    ⟨hdummy, fun k _ hk => hplace k hk, fun _ => rfl, fun h => absurd h (lt_irrefl 0)⟩
    fun k hk s' h => h.step layout hlt hway (hcount k hk)
  exact hprogress.first (lt_pageCount_iff.mpr (by omega))

/-- With a byte set at the start only, the first byte of the page comes back set. -/
theorem not_restores (hlt : start < end_) (hway : way < coloring.getColorCount mmu)
    (htargets : TargetsExist mmu coloring way (pageCount mmu (alignDown mmu start) end_))
    (hdvd : ¬ mmu.getPageSize ∣ start) : ¬ Restores mmu coloring cpu start end_ way := by
  intro h
  let s : GenericMMU.State τ :=
    { pageTable := mmu.fillLinear, memory := fun a => if a = start then 1 else 0 }
  have hid : ∀ q ∈ pagesOf mmu start end_, mmu.frame s.pageTable q = q := fun q hq => by
    have := mmu.frame_fillLinear (layout.mul_virtual hq)
    rwa [← GenericMMU.page, page_mul] at this
  have hdummy : mmu.IsIdentity s.pageTable (mmu.getDummyPageAddress cpu) :=
    mmu.frame_fillLinear mmu.isVirtual_dummy
  have hmem : mmu.page start ∈ pagesOf mmu start end_ := ⟨start, le_rfl, hlt, rfl⟩
  have hround : mmu.page start * mmu.getPageSize + start % mmu.getPageSize = start :=
    Nat.div_add_mod' start mmu.getPageSize
  have hmod : start % mmu.getPageSize < mmu.getPageSize := Nat.mod_lt start mmu.pageSize_pos
  have hne : start % mmu.getPageSize ≠ 0 := fun h0 => hdvd (Nat.dvd_of_mod_eq_zero h0)
  -- the byte at the start survives the prefetch and is then the first of the page
  obtain ⟨hsound, hplace⟩ := sound_prefetch layout hlt hway htargets hid hdummy
  obtain ⟨hframe, hbyte⟩ := evict_first_byte layout hlt hway (hsound.dummy cpu rfl) hplace
  have hone := hsound.content_eq _ hmem _ hmod
  have hsame := (h (Machine.initial s) hid hdummy _ hmem).2 0 mmu.pageSize_pos
  have hafter : ∀ {s' : GenericMMU.State τ}, mmu.read s' start =
      s'.memory (mmu.frame s'.pageTable (mmu.page start) * mmu.getPageSize +
        start % mmu.getPageSize) := rfl
  rw [Machine.evict_prefetch_state, GenericMMU.read_page (Nat.dvd_mul_left _ _) mmu.pageSize_pos,
    GenericMMU.read_page (Nat.dvd_mul_left _ _) mmu.pageSize_pos, page_mul, Nat.add_zero,
    Nat.add_zero, Machine.initial, hframe, hbyte, hafter, hone, hid _ hmem, hround] at hsame
  have hstart : mmu.page start * mmu.getPageSize ≠ start := by omega
  have h01 : s.memory (mmu.page start * mmu.getPageSize) = 0 := if_neg hstart
  have h1 : s.memory start = 1 := if_pos rfl
  exact absurd (h1.symm.trans (hsame.trans h01)) (by decide)

end

/-- Eviction undoes the prefetch of a chunk if and only if the chunk is empty or its start is
aligned. -/
theorem evict_restores_iff (hway : way < coloring.getColorCount mmu)
    (htargets : TargetsExist mmu coloring way (pageCount mmu (alignDown mmu start) end_))
    (layout : Layout mmu coloring {cpu} (pagesOf mmu start end_)) :
    Restores mmu coloring cpu start end_ way ↔ end_ ≤ start ∨ mmu.getPageSize ∣ start := by
  rcases Nat.lt_or_ge start end_ with hlt | hle
  · refine ⟨fun h => .inr ?_, fun h => restores_of_dvd layout hlt hway htargets
      (h.resolve_left hlt.not_ge)⟩
    by_contra hdvd
    exact not_restores layout hlt hway htargets hdvd h
  · refine iff_of_true (fun m _ _ q hq => ?_) (.inl hle)
    obtain ⟨a, hstart, hend, -⟩ := hq
    exact absurd (hstart.trans_lt hend) hle.not_gt

/-- The pages of a range above the dummy pages and below the coloring memory can be OSC pages. -/
theorem x86_layout_pagesOf {start end_ : Nat} (hstart : 0x100000 ≤ start) (hend : end_ ≤ 0x40000000)
    (cpu : UInt8) :
    Layout x86MMU (x86CacheColoring 0x40000000) {cpu} (pagesOf x86MMU start end_) := by
  have hpages : ∀ q ∈ pagesOf x86MMU start end_, 0x100 ≤ q ∧ q < 0x40000 := by
    rintro q ⟨a, ha, ha', rfl⟩
    change 0x100 ≤ a / 4096 ∧ a / 4096 < 0x40000
    omega
  have h := x86_layout hpages
  exact ⟨h.pagesPerColor_pos, h.dvd_start, h.virtual, h.physical,
    fun cpu' _ => h.not_dummy cpu' trivial, h.not_colored⟩

theorem evict_restores_iff_twoPages :
    Restores x86MMU (x86CacheColoring 0x40000000) 0 0x100000 0x102000 5 ↔
      0x102000 ≤ 0x100000 ∨ 4096 ∣ 0x100000 :=
  evict_restores_iff (by decide) (by decide) (x86_layout_pagesOf (by decide) (by decide) 0)

/-- A component of one kilobyte in the middle of a page does not come back unchanged. -/
theorem not_evict_restores :
    ¬ ∀ start end_ way : Nat, way < (x86CacheColoring 0x40000000).getColorCount x86MMU →
      0x100000 ≤ start → end_ ≤ 0x40000000 →
      Restores x86MMU (x86CacheColoring 0x40000000) 0 start end_ way := by
  intro h
  exact not_restores (x86_layout_pagesOf (by decide) (by decide) 0) (by decide) (by decide)
    (by decide) (by decide) (h 0x100800 0x100C00 5 (by decide) (by decide) (by decide))

end CacheColoring
end CyPhOS
