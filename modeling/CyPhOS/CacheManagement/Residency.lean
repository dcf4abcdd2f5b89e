import CyPhOS.CacheManagement.CacheRecord
import CyPhOS.CacheManagement.Chunks

/-! # What a preload leaves in the cache

A preload goes through the chunks of a component. It prefetches those that are not on record, but
only until it has found one that is: `skipPreload` stays set. `MissesThenHits` says that the chunks
that are not on record come first. `preloadSingleOSC_resident` says that the whole component is in
the cache after a preload exactly in this case.
-/

namespace CyPhOS

namespace GenericCacheManagement

variable {O : Type} {layout : MemoryLayout O} {osc : O} {c c₁ c' : GenericCacheManagement O}
  {skip skip₁ skip' : Bool} {chunk : Nat × Nat} {cs : List (Nat × Nat)} {way : Nat}

/-- The last thing done to the way was to prefetch the chunk, or a longer range that begins with
it. -/
def Resident (c : GenericCacheManagement O) (way : Nat) (chunk : Nat × Nat) : Prop :=
  ∃ end_ textEnd, c.lastOperation way = some (.prefetchDataToWay chunk.1 end_ textEnd) ∧
    chunk.2 ≤ end_

/-- Each recorded range is resident in its way. -/
def RecordsResident (c : GenericCacheManagement O) : Prop :=
  ∀ way < c.mCacheWayCount, (c.mCacheWays way).dataStart ≠ 0 →
    c.Resident way ((c.mCacheWays way).dataStart, (c.mCacheWays way).dataEnd)

/-- The way records the chunk for the component. -/
def RecordsChunk (c : GenericCacheManagement O) (osc : O) (way : Nat) (chunk : Nat × Nat) : Prop :=
  way < c.mCacheWayCount ∧ (c.mCacheWays way).dataStart ≠ 0 ∧
    (c.mCacheWays way).dataStart = chunk.1 ∧ (c.mCacheWays way).dataEnd = chunk.2 ∧
    (c.mCacheWays way).osc = some osc

/-- Between `c` and `c'` the chunks have been preloaded. Each of them is on record, in a way that
held it before or that it was prefetched to. -/
def Preloaded (osc : O) (cs : List (Nat × Nat)) (c c' : GenericCacheManagement O) : Prop :=
  ∀ chunk ∈ cs, (∃ way, c'.RecordsChunk osc way chunk) ∧
    ∀ way, c'.RecordsChunk osc way chunk → c.Resident way chunk ∨
      ∃ textEnd, c'.lastOperation way = some (.prefetchDataToWay chunk.1 chunk.2 textEnd)

/-- The lookup finds a way that holds the chunk. -/
def OnRecord (c : GenericCacheManagement O) (chunk : Nat × Nat) : Prop :=
  chunk.1 ≠ 0 ∧ ∃ way, c.findWay chunk.1 = some way ∧ c.Resident way chunk

/-- A number of chunks are not on record when their turn comes, and all that follow are. -/
inductive MissesThenHits (layout : MemoryLayout O) (osc : O) :
    GenericCacheManagement O → List (Nat × Nat) → Prop
  | hits {c : GenericCacheManagement O} {cs : List (Nat × Nat)} :
    (∀ chunk ∈ cs, c.OnRecord chunk) → MissesThenHits layout osc c cs
  | miss {c c₁ : GenericCacheManagement O} {chunk : Nat × Nat} {cs : List (Nat × Nat)} :
    chunk.1 ≠ 0 → c.findWay chunk.1 = none →
    preloadRound layout osc (c, false) chunk = .ok (c₁, false) →
    MissesThenHits layout osc c₁ cs → MissesThenHits layout osc c (chunk :: cs)

/-! ## One round -/

/-- What a round does with the way that it is given. -/
structure Round (osc : O) (c : GenericCacheManagement O) (skip : Bool) (chunk : Nat × Nat)
    (c' : GenericCacheManagement O) (skip' : Bool) (way : Nat) : Prop where
  count : c'.mCacheWayCount = c.mCacheWayCount
  other : ∀ v ≠ way, (c'.mCacheWays v).unaged = (c.mCacheWays v).unaged ∧
    c'.lastOperation v = c.lastOperation v
  locked : (c'.mCacheWays way).permanentLocked = (c.mCacheWays way).permanentLocked
  inUse : (c'.mCacheWays way).inUse = true
  records : chunk.1 ≠ 0 → c'.RecordsChunk osc way chunk
  dataStart : (c'.mCacheWays way).dataStart = chunk.1
  cases : (c.findWay chunk.1 = some way ∧ skip' = true ∧
      c'.lastOperation way = c.lastOperation way) ∨
    (c.findWay chunk.1 = none ∧ (c.mCacheWays way).permanentLocked = false ∧
      (c.mCacheWays way).inUse = false ∧ skip' = (skip || chunk.1 == 0) ∧
      if skip' then c'.lastOperation way = if (c.mCacheWays way).dataStart = 0
        then c.lastOperation way else some .evictCacheWay
      else ∃ textEnd, c'.lastOperation way =
        some (.prefetchDataToWay chunk.1 chunk.2 textEnd))

theorem Round.of_eq_ok (h : preloadRound layout osc (c, skip) chunk = .ok (c', skip'))
    (hend : chunk.2 = preloadEnd layout chunk.1 (layout.getOSCEnd osc)) :
    ∃ way, Round osc c skip chunk c' skip' way := by
  obtain ⟨⟨c₂, oscStart', skip₂⟩, hok, h⟩ := Exec.bind_eq_ok.mp h
  obtain ⟨rfl, rfl⟩ := Prod.mk.inj (Except.ok.inj h)
  obtain ⟨way, c₁, textEnd, hhands, hskip, hcount, hother, hlocked, hstart, hend', hop, hosc, hinUse⟩ :=
    preloadChunk_eq_ok hok
  rw [← hend] at hend' hop
  refine ⟨way, hcount, hother, hlocked, hinUse, fun hne => ?_, hstart, ?_⟩
  · exact ⟨hcount ▸ hhands.lt, hstart ▸ hne, hstart, hend', hosc⟩
  · rcases hhands.cases with ⟨hfound, hstart₁, -, hop₁⟩ | ⟨hnone, hfree, hidle, hzero, hop₁⟩
    · have htrue : skip₂ = true := by simp [hskip, hstart₁]
      rw [htrue, if_pos rfl, hop₁] at hop
      exact .inl ⟨hfound, htrue, hop⟩
    · have hmiss : skip₂ = (skip || chunk.1 == 0) := by
        rw [hskip, hzero, BEq.comm]
      refine .inr ⟨hnone, hfree, hidle, hmiss, ?_⟩
      cases hs : skip₂ with
      | true =>
        rw [hs, if_pos rfl, hop₁] at hop
        exact hop
      | false =>
        rw [hs] at hop
        exact ⟨textEnd, hop⟩

/-- A chunk that is found stays in its way. -/
theorem Round.found {v : Nat} (h : Round osc c skip chunk c' skip' way)
    (hfound : c.findWay chunk.1 = some v) :
    v = way ∧ skip' = true ∧ c'.lastOperation way = c.lastOperation way := by
  rcases h.cases with ⟨hway, hskip, hop⟩ | ⟨hnone, -⟩
  · exact ⟨Option.some.inj (hfound.symm.trans hway), hskip, hop⟩
  · rw [hfound] at hnone
    cases hnone

/-- A chunk that is not found gets a way that is free. -/
theorem Round.notFound (h : Round osc c skip chunk c' skip' way)
    (hnone : c.findWay chunk.1 = none) :
    (c.mCacheWays way).permanentLocked = false ∧ (c.mCacheWays way).inUse = false ∧
      skip' = (skip || chunk.1 == 0) ∧
      if skip' then c'.lastOperation way = if (c.mCacheWays way).dataStart = 0
        then c.lastOperation way else some .evictCacheWay
      else ∃ textEnd, c'.lastOperation way =
        some (.prefetchDataToWay chunk.1 chunk.2 textEnd) := by
  rcases h.cases with ⟨hfound, -⟩ | ⟨-, hround⟩
  · rw [hnone] at hfound
    cases hfound
  · exact hround

theorem findWay_congr (hcount : c'.mCacheWayCount = c.mCacheWayCount)
    (hstart : ∀ v, (c'.mCacheWays v).dataStart = (c.mCacheWays v).dataStart) (dataStart : Nat) :
    c'.findWay dataStart = c.findWay dataStart := by
  simp only [findWay, hcount, hstart]

/-- A chunk that was found stays where it is, and so does every other one. -/
theorem Round.onRecord_iff {other : Nat × Nat} (h : Round osc c skip chunk c' skip' way)
    (hfound : c.findWay chunk.1 = some way) : c'.OnRecord other ↔ c.OnRecord other := by
  have hstart : ∀ v, (c'.mCacheWays v).dataStart = (c.mCacheWays v).dataStart := by
    intro v
    rcases eq_or_ne v way with rfl | hne
    · rw [h.dataStart, (findWay_eq_some hfound).2]
    · exact (CacheWayState.unaged_eq_iff.mp (h.other v hne).1).2.1
  have hop : c'.lastOperation = c.lastOperation := by
    funext v
    rcases eq_or_ne v way with rfl | hne
    · exact (h.found hfound).2.2
    · exact (h.other v hne).2
  simp only [OnRecord, Resident, findWay_congr h.count hstart, hop]

/-- The round keeps the records right, if the way that it records holds the chunk. -/
theorem Round.recordsResident (h : Round osc c skip chunk c' skip' way) (hc : c.RecordsResident)
    (hchunk : chunk.1 ≠ 0) (hway : c'.Resident way chunk) : c'.RecordsResident := by
  intro v hv hstart
  rcases eq_or_ne v way with rfl | hne
  · obtain ⟨-, -, hs, he, -⟩ := h.records hchunk
    rwa [hs, he]
  · obtain ⟨hunaged, hop⟩ := h.other v hne
    obtain ⟨-, hs, he, -⟩ := CacheWayState.unaged_eq_iff.mp hunaged
    rw [hs] at hstart
    rw [Resident, hop, hs, he]
    exact hc v (h.count ▸ hv) hstart

theorem Round.freeWaysEmpty (h : Round osc c skip chunk c' skip' way) (hc : c.FreeWaysEmpty)
    (hchunk : chunk.1 ≠ 0) : c'.FreeWaysEmpty := by
  intro v hv hstart hlocked
  rcases eq_or_ne v way with rfl | hne
  · rw [h.dataStart] at hstart
    exact absurd hstart hchunk
  · obtain ⟨hunaged, hop⟩ := h.other v hne
    obtain ⟨hl, hs, -⟩ := CacheWayState.unaged_eq_iff.mp hunaged
    rw [hs] at hstart
    rw [hl] at hlocked
    rw [hop]
    exact hc v (h.count ▸ hv) hstart hlocked

/-! ## The rounds of a call -/

/-- The chunks of a component, or what remains of them. -/
structure ChunkList (layout : MemoryLayout O) (osc : O) (cs : List (Nat × Nat)) : Prop where
  ends : ∀ chunk ∈ cs, chunk.2 = preloadEnd layout chunk.1 (layout.getOSCEnd osc)
  starts : cs.Pairwise fun x y => x.1 ≠ y.1

theorem ChunkList.tail (h : ChunkList layout osc (chunk :: cs)) : ChunkList layout osc cs where
  ends chunk hchunk := h.ends chunk (.tail _ hchunk)
  starts := (List.pairwise_cons.mp h.starts).2

theorem le_of_mem_chunks {oscStart oscEnd : Nat} (h : chunk ∈ chunks layout oscStart oscEnd) :
    oscStart ≤ chunk.1 := by
  induction oscStart using chunks.induct layout oscEnd with
  | case1 oscStart hlt _ ih =>
    rw [chunks_of_lt hlt] at h
    rcases List.mem_cons.mp h with rfl | h
    · exact le_rfl
    · exact (lt_nextStart layout hlt).le.trans (ih h)
  | case2 oscStart hdone =>
    rw [chunks_of_not_lt hdone] at h
    cases h

theorem chunks_chunkList (layout : MemoryLayout O) (osc : O) (oscStart : Nat) :
    ChunkList layout osc (chunks layout oscStart (layout.getOSCEnd osc)) := by
  induction oscStart using chunks.induct layout (layout.getOSCEnd osc) with
  | case1 oscStart hlt _ ih =>
    rw [chunks_of_lt hlt]
    constructor
    · intro chunk h
      rcases List.mem_cons.mp h with rfl | h
      · rfl
      · exact ih.ends chunk h
    · refine List.pairwise_cons.mpr ⟨fun chunk h => ?_, ih.starts⟩
      exact ((lt_nextStart layout hlt).trans_le (le_of_mem_chunks h)).ne
  | case2 oscStart hdone =>
    rw [chunks_of_not_lt hdone]
    exact ⟨by simp, List.Pairwise.nil⟩

/-- The rounds for the chunks lead from `c` to `c'`. -/
inductive Rounds (layout : MemoryLayout O) (osc : O) : GenericCacheManagement O → Bool → List (Nat × Nat) →
    GenericCacheManagement O → Prop
  | nil {c : GenericCacheManagement O} {skip : Bool} : Rounds layout osc c skip [] c
  | cons {c c₁ c' : GenericCacheManagement O} {skip skip₁ : Bool} {chunk : Nat × Nat}
    {cs : List (Nat × Nat)} {way : Nat} :
    preloadRound layout osc (c, skip) chunk = .ok (c₁, skip₁) →
    Round osc c skip chunk c₁ skip₁ way → Rounds layout osc c₁ skip₁ cs c' →
    Rounds layout osc c skip (chunk :: cs) c'

theorem Rounds.of_eq_ok (hcs : ChunkList layout osc cs)
    (h : cs.foldlM (preloadRound layout osc) (c, skip) = .ok (c', skip')) :
    Rounds layout osc c skip cs c' := by
  induction cs generalizing c skip with
  | nil =>
    obtain ⟨rfl, -⟩ := Prod.mk.inj (Except.ok.inj h)
    exact .nil
  | cons chunk cs ih =>
    rw [List.foldlM_cons] at h
    obtain ⟨⟨c₁, skip₁⟩, hok, h⟩ := Exec.bind_eq_ok.mp h
    obtain ⟨way, hround⟩ := Round.of_eq_ok hok (hcs.ends chunk (by simp))
    exact .cons hok hround (ih hcs.tail h)

/-- A way ends up with one of the chunks, or it is not touched. -/
theorem Rounds.touched (h : Rounds layout osc c skip cs c') (v : Nat) :
    c'.mCacheWayCount = c.mCacheWayCount ∧
      ((c'.mCacheWays v).unaged = (c.mCacheWays v).unaged ∧
          c'.lastOperation v = c.lastOperation v ∨
        ∃ chunk ∈ cs, (c'.mCacheWays v).dataStart = chunk.1) := by
  induction h with
  | nil => exact ⟨rfl, .inl ⟨rfl, rfl⟩⟩
  | @cons c c₁ c' skip skip₁ chunk cs way _ hround _ ih =>
    obtain ⟨hcount, ih⟩ := ih
    refine ⟨hcount.trans hround.count, ?_⟩
    rcases ih with ⟨hunaged, hop⟩ | ⟨later, hlater, hstart⟩
    · rcases eq_or_ne v way with rfl | hne
      · refine .inr ⟨chunk, by simp, ?_⟩
        rw [(CacheWayState.unaged_eq_iff.mp hunaged).2.1, hround.dataStart]
      · obtain ⟨hunaged₁, hop₁⟩ := hround.other v hne
        exact .inl ⟨hunaged.trans hunaged₁, hop.trans hop₁⟩
    · exact .inr ⟨later, .tail _ hlater, hstart⟩

/-- A way that is in use for something else is not handed out. -/
theorem Rounds.keeps (h : Rounds layout osc c skip cs c') {v : Nat}
    (hinUse : (c.mCacheWays v).inUse = true)
    (hne : ∀ chunk ∈ cs, (c.mCacheWays v).dataStart ≠ chunk.1) :
    (c'.mCacheWays v).unaged = (c.mCacheWays v).unaged ∧
      c'.lastOperation v = c.lastOperation v := by
  induction h with
  | nil => exact ⟨rfl, rfl⟩
  | @cons c c₁ c' skip skip₁ chunk cs way _ hround _ ih =>
    have hway : v ≠ way := by
      rintro rfl
      rcases hround.cases with ⟨hfound, -⟩ | ⟨-, -, hidle, -⟩
      · exact hne chunk (by simp) (findWay_eq_some hfound).2
      · rw [hinUse] at hidle
        cases hidle
    obtain ⟨hunaged, hop⟩ := hround.other v hway
    obtain ⟨-, hstart, -, -, huse⟩ := CacheWayState.unaged_eq_iff.mp hunaged
    obtain ⟨hunaged', hop'⟩ := ih (huse.trans hinUse) fun chunk h => hstart ▸ hne chunk (.tail _ h)
    exact ⟨hunaged'.trans hunaged, hop'.trans hop⟩

theorem recordsChunk_congr (hcount : c'.mCacheWayCount = c.mCacheWayCount)
    (hunaged : (c'.mCacheWays way).unaged = (c.mCacheWays way).unaged) :
    c'.RecordsChunk osc way chunk ↔ c.RecordsChunk osc way chunk := by
  obtain ⟨-, hstart, hend, hosc, -⟩ := CacheWayState.unaged_eq_iff.mp hunaged
  rw [RecordsChunk, RecordsChunk, hcount, hstart, hend, hosc]

/-- The chunks of a call are preloaded if the first one is, by its round, and the others by the rest
of the call. -/
theorem preloaded_cons (hcs : ChunkList layout osc (chunk :: cs)) (hc : c.RecordsResident)
    (hround : Round osc c skip chunk c₁ skip₁ way) (hrest : Rounds layout osc c₁ skip₁ cs c') :
    Preloaded osc (chunk :: cs) c c' ↔ chunk.1 ≠ 0 ∧
      (c.Resident way chunk ∨
        ∃ textEnd, c₁.lastOperation way = some (.prefetchDataToWay chunk.1 chunk.2 textEnd)) ∧
      Preloaded osc cs c₁ c' := by
  have hstarts := (List.pairwise_cons.mp hcs.starts).1
  -- the way of the first chunk is left alone afterwards
  obtain ⟨hunaged, hop⟩ := hrest.keeps hround.inUse fun other hother =>
    hround.dataStart ▸ hstarts other hother
  have hcount := (hrest.touched way).1
  have hfirst : chunk.1 ≠ 0 → c'.RecordsChunk osc way chunk := fun hne =>
    (recordsChunk_congr hcount hunaged).mpr (hround.records hne)
  have hlater : ∀ other ∈ cs, ∀ v, c'.RecordsChunk osc v other →
      (c.Resident v other ↔ c₁.Resident v other) := by
    rintro other hother v ⟨-, -, hstart, -⟩
    have hne : v ≠ way := by
      rintro rfl
      rw [(CacheWayState.unaged_eq_iff.mp hunaged).2.1, hround.dataStart] at hstart
      exact hstarts other hother hstart
    rw [Resident, Resident, (hround.other v hne).2]
  constructor
  · intro h
    obtain ⟨⟨v, hv⟩, hall⟩ := h chunk (by simp)
    have hne : chunk.1 ≠ 0 := hv.2.2.1 ▸ hv.2.1
    refine ⟨hne, hop ▸ hall way (hfirst hne), fun other hother => ?_⟩
    obtain ⟨hexists, hall⟩ := h other (.tail _ hother)
    exact ⟨hexists, fun v hv => (hall v hv).imp_left (hlater other hother v hv).mp⟩
  · rintro ⟨hne, hway, h⟩ other hother
    rcases List.mem_cons.mp hother with rfl | hother
    · refine ⟨⟨way, hfirst hne⟩, fun v hv => ?_⟩
      rcases eq_or_ne v way with rfl | hvway
      · rwa [hop]
      · -- another way that records the chunk has done so all the time
        rcases (hrest.touched v).2 with ⟨hunaged', hop'⟩ | ⟨later, hlater, hstart⟩
        · obtain ⟨hunaged₁, hop₁⟩ := hround.other v hvway
          have hv' := (recordsChunk_congr (hcount.trans hround.count)
            (hunaged'.trans hunaged₁)).mp hv
          obtain ⟨hlt, hzero, hs, he, -⟩ := hv'
          have := hc v hlt hzero
          rw [hs, he] at this
          exact .inl this
        · exact absurd (hv.2.2.1.symm.trans hstart) (hstarts later hlater)
    · obtain ⟨hexists, hall⟩ := h other hother
      exact ⟨hexists, fun v hv => (hall v hv).imp_left (hlater other hother v hv).mpr⟩

/-- What the chunks that remain have to be like. After a hit only hits are left. -/
def SkipFits (layout : MemoryLayout O) (osc : O) (c : GenericCacheManagement O)
    (cs : List (Nat × Nat)) : Bool → Prop
  | true => ∀ chunk ∈ cs, c.OnRecord chunk
  | false => MissesThenHits layout osc c cs

/-- A round that finds its chunk on record leaves the same to find for the rest. -/
theorem SkipFits.hit_iff (hround : Round osc c skip chunk c₁ skip₁ way)
    (hfound : c.findWay chunk.1 = some way) :
    (∀ other ∈ chunk :: cs, c.OnRecord other) ↔
      (chunk.1 ≠ 0 ∧ c.Resident way chunk) ∧ SkipFits layout osc c₁ cs skip₁ := by
  have hskip : skip₁ = true := (hround.found hfound).2.1
  have hhead : c.OnRecord chunk ↔ chunk.1 ≠ 0 ∧ c.Resident way chunk := by
    rw [OnRecord, hfound]
    simp
  rw [List.forall_mem_cons, hhead, hskip]
  exact and_congr_right fun _ => forall₂_congr fun other _ => (hround.onRecord_iff hfound).symm

theorem Rounds.preloaded (h : Rounds layout osc c skip cs c') (hcs : ChunkList layout osc cs)
    (hc : c.RecordsResident) (hfits : SkipFits layout osc c cs skip) : Preloaded osc cs c c' := by
  induction h with
  | nil => exact fun chunk h => nomatch h
  | @cons c c₁ c' skip skip₁ chunk cs way hok hround hrest ih =>
    rw [preloaded_cons hcs hc hround hrest]
    have hhits : (∀ other ∈ chunk :: cs, c.OnRecord other) → chunk.1 ≠ 0 ∧
        (c.Resident way chunk ∨ ∃ textEnd, c₁.lastOperation way =
          some (.prefetchDataToWay chunk.1 chunk.2 textEnd)) ∧ Preloaded osc cs c₁ c' := by
      intro hall
      obtain ⟨hne, v, hfound, hres⟩ := hall chunk (by simp)
      obtain ⟨rfl, -, hop⟩ := hround.found hfound
      have hfits' : SkipFits layout osc c₁ cs skip₁ :=
        ((SkipFits.hit_iff hround hfound).mp hall).2
      have hres₁ : c₁.Resident v chunk := by rwa [Resident, hop]
      exact ⟨hne, .inl hres, ih hcs.tail (hround.recordsResident hc hne hres₁) hfits'⟩
    cases skip with
    | true => exact hhits hfits
    | false =>
      cases hfits with
      | hits hall => exact hhits hall
      | miss hne hnone hok' hfits =>
        obtain ⟨rfl, rfl⟩ := Prod.mk.inj (Except.ok.inj (hok.symm.trans hok'))
        obtain ⟨-, -, -, textEnd, hop⟩ := hround.notFound hnone
        have hres₁ : c₁.Resident way chunk := ⟨_, _, hop, le_rfl⟩
        exact ⟨hne, .inr ⟨textEnd, hop⟩, ih hcs.tail (hround.recordsResident hc hne hres₁) hfits⟩

/-- A chunk that is not on record is not in the way that it is given, unless it is prefetched. -/
theorem Round.not_skipped (hround : Round osc c skip chunk c₁ skip₁ way) (hc : c.RecordsResident)
    (hfree : c.FreeWaysEmpty) (hnone : c.findWay chunk.1 = none) (hlt : way < c.mCacheWayCount)
    (hway : c.Resident way chunk ∨ ∃ textEnd, c₁.lastOperation way =
      some (.prefetchDataToWay chunk.1 chunk.2 textEnd)) : skip₁ = false := by
  obtain ⟨hunlocked, -, -, hop⟩ := hround.notFound hnone
  have hnot : ¬ c.Resident way chunk := by
    rintro ⟨end_, textEnd, hlast, -⟩
    by_cases hzero : (c.mCacheWays way).dataStart = 0
    · exact hfree way hlt hzero hunlocked _ _ _ hlast
    · obtain ⟨_, _, hlast', -⟩ := hc way hlt hzero
      rw [hlast'] at hlast
      simp only [Option.some.injEq, CacheOperation.prefetchDataToWay.injEq] at hlast
      exact findWay_eq_none hnone way hlt hlast.1
  cases skip₁ with
  | false => rfl
  | true =>
    obtain ⟨textEnd, hlast⟩ := hway.resolve_left hnot
    rw [if_pos rfl, hlast] at hop
    split at hop
    · exact absurd ⟨_, _, hop.symm, le_rfl⟩ hnot
    · cases hop

theorem Rounds.skipFits (h : Rounds layout osc c skip cs c') (hcs : ChunkList layout osc cs)
    (hc : c.RecordsResident) (hfree : c.FreeWaysEmpty) (hpre : Preloaded osc cs c c') :
    SkipFits layout osc c cs skip := by
  induction h with
  | @nil c skip =>
    cases skip with
    | true => exact fun chunk h => nomatch h
    | false => exact .hits fun chunk h => nomatch h
  | @cons c c₁ c' skip skip₁ chunk cs way hok hround hrest ih =>
    obtain ⟨hne, hway, hpre⟩ := (preloaded_cons hcs hc hround hrest).mp hpre
    have hlt : way < c.mCacheWayCount := hround.count ▸ (hround.records hne).1
    have hmiss := fun hnone => hround.not_skipped hc hfree hnone hlt hway
    have hres₁ : c₁.Resident way chunk := by
      rcases hway with ⟨end_, textEnd, hlast, hle⟩ | ⟨textEnd, hlast⟩
      · rcases hround.cases with ⟨-, -, hop⟩ | ⟨hnone, -, -, -, hop⟩
        · exact ⟨end_, textEnd, hop.trans hlast, hle⟩
        · rw [hmiss hnone] at hop
          obtain ⟨textEnd', hop⟩ := hop
          exact ⟨_, _, hop, le_rfl⟩
      · exact ⟨_, _, hlast, le_rfl⟩
    have hfits := ih hcs.tail (hround.recordsResident hc hne hres₁) (hround.freeWaysEmpty hfree hne) hpre
    rcases hround.cases with ⟨hfound, -, hop⟩ | ⟨hnone, -, -, hskip, -⟩
    · have hres : c.Resident way chunk := by rwa [Resident, hop] at hres₁
      have hall := (SkipFits.hit_iff hround hfound).mpr ⟨⟨hne, hres⟩, hfits⟩
      cases skip with
      | true => exact hall
      | false => exact .hits hall
    · obtain rfl := hmiss hnone
      cases skip with
      | true => simp at hskip
      | false => exact .miss hne hnone hok hfits

/-- A preload that returns leaves the whole component in the cache if the chunks that are not on
record come before those that are. Where unrecorded ways hold nothing it does so only then. -/
theorem preloadSingleOSC_resident (hc : c.RecordsResident)
    (hok : c.preloadSingleOSC layout osc = .ok c') :
    (MissesThenHits layout osc c (chunks layout (layout.getOSCStart osc) (layout.getOSCEnd osc)) →
      Preloaded osc (chunks layout (layout.getOSCStart osc) (layout.getOSCEnd osc)) c c') ∧
    (c.FreeWaysEmpty →
      Preloaded osc (chunks layout (layout.getOSCStart osc) (layout.getOSCEnd osc)) c c' →
      MissesThenHits layout osc c
        (chunks layout (layout.getOSCStart osc) (layout.getOSCEnd osc))) := by
  have hcs := chunks_chunkList layout osc (layout.getOSCStart osc)
  rw [preloadSingleOSC_eq] at hok
  obtain ⟨⟨c₂, skip'⟩, hfold, hok⟩ := Exec.bind_eq_ok.mp hok
  obtain rfl : c₂ = c' := Except.ok.inj hok
  have hrounds := Rounds.of_eq_ok hcs hfold
  exact ⟨hrounds.preloaded hcs hc, fun hfree => hrounds.skipFits hcs hc hfree⟩

theorem chunks_twoLines :
    chunks twoLines 0x1000 0x10FE = [(0x1000, 0x107C), (0x1080, 0x10FC)] := by
  have hnext : nextStart (preloadEnd twoLines 0x1000 0x10FE) 0x10FE = 0x1080 := rfl
  have hlast : nextStart (preloadEnd twoLines 0x1080 0x10FE) 0x10FE = 0x10FE := rfl
  rw [chunks_of_lt (by decide), hnext, chunks_of_lt (by decide), hlast,
    chunks_of_not_lt (by decide)]
  rfl

/-- A component of which nothing is in the cache. -/
theorem preloadSingleOSC_resident_new :
    ∃ c', (new 2).preloadSingleOSC twoLines () = .ok c' ∧
      Preloaded () (chunks twoLines 0x1000 0x10FE) (new 2) c' := by
  obtain ⟨c', hok⟩ : ∃ c', (new 2).preloadSingleOSC twoLines () = .ok c' := ⟨_, rfl⟩
  have hc : (new 2 : GenericCacheManagement Unit).RecordsResident := fun _ _ hstart =>
    absurd rfl hstart
  refine ⟨c', hok, (preloadSingleOSC_resident hc hok).1 ?_⟩
  rw [show chunks twoLines (twoLines.getOSCStart ()) (twoLines.getOSCEnd ()) =
    [(0x1000, 0x107C), (0x1080, 0x10FC)] from chunks_twoLines]
  exact .miss (by decide) rfl rfl (.miss (by decide) rfl rfl (.hits (by simp)))

/-- Of the same component the first way holds the first chunk, and the second way is free. -/
def partlyCached : GenericCacheManagement Unit where
  mCacheWayCount := 2
  mCriticalWayPointer := 0
  mCacheWays way :=
    if way = 0 then
      { permanentLocked := false, lruCount := 0, dataStart := 0x1000, dataEnd := 0x107C,
        osc := some (), inUse := false }
    else
      { permanentLocked := false, lruCount := 0, dataStart := 0, dataEnd := 0, osc := none,
        inUse := false }
  lastOperation way :=
    if way = 0 then some (.prefetchDataToWay 0x1000 0x107C 0x107C) else none

/-- The second chunk goes on record in the second way, which it was never loaded to. -/
theorem preload_skips_missing_chunk :
    partlyCached.RecordsResident ∧ ∃ c', partlyCached.preloadSingleOSC twoLines () = .ok c' ∧
      c'.RecordsChunk () 1 (0x1080, 0x10FC) ∧ c'.lastOperation 1 = none ∧
      ¬ Preloaded () (chunks twoLines 0x1000 0x10FE) partlyCached c' := by
  constructor
  · intro way _ hstart
    by_cases hway : way = 0
    · subst hway
      exact ⟨_, _, rfl, le_rfl⟩
    · simp [partlyCached, hway] at hstart
  · have hrecords : ∃ c', partlyCached.preloadSingleOSC twoLines () = .ok c' ∧
        c'.RecordsChunk () 1 (0x1080, 0x10FC) ∧ c'.lastOperation 1 = none :=
      ⟨_, rfl, ⟨by decide, by decide, rfl, rfl, rfl⟩, rfl⟩
    obtain ⟨c', hok, hchunk, hop⟩ := hrecords
    refine ⟨c', hok, hchunk, hop, fun h => ?_⟩
    rw [chunks_twoLines] at h
    rcases (h (0x1080, 0x10FC) (by simp)).2 1 hchunk with ⟨_, _, hlast, -⟩ | ⟨_, hlast⟩
    · cases hlast
    · rw [hop] at hlast
      cases hlast

end GenericCacheManagement
end CyPhOS
