import CyPhOS.CacheManagement.GenericCacheManagement
import CyPhOS.Lib.Run

/-! # The record of the ways

`RecordMatches` is what the record of the ways is for: a way that records a range holds that range,
since the last thing done to the way was to prefetch it. `Step` are the rounds of
`preloadSingleOSC` and the calls of `lookupAndEvictOSC`, of which preloads and evictions consist
(`preloadSingleOSC_run`, `evictOSC_run`).

`lookupAndEvictOSC` evicts what a way holds and leaves it on record, and a preload that has found a
part of its component on record does not prefetch the parts that are missing. `Keeps` says when a
step does neither, and `recordMatches_iff` that these are the only ways to lose the match.
-/

namespace CyPhOS

open Transition

namespace GenericCacheManagement

variable {O : Type}

/-- A way on record holds what the record says. -/
def RecordMatches (c : GenericCacheManagement O) : Prop :=
  ∀ way < c.mCacheWayCount, (c.mCacheWays way).dataStart ≠ 0 →
    ∃ textEnd, c.lastOperation way = some (.prefetchDataToWay (c.mCacheWays way).dataStart
      (c.mCacheWays way).dataEnd textEnd)

/-- A way that is free for components holds nothing. -/
def FreeWaysEmpty (c : GenericCacheManagement O) : Prop :=
  ∀ way < c.mCacheWayCount, (c.mCacheWays way).dataStart = 0 →
    (c.mCacheWays way).permanentLocked = false →
    ∀ start end_ textEnd, c.lastOperation way ≠ some (.prefetchDataToWay start end_ textEnd)

/-- The cache management, and the preload that is under way: its component, the next address and
`skipPreload`. -/
structure RecordState (O : Type) where
  cache : GenericCacheManagement O
  preload : Option (O × Nat × Bool)

inductive RecordLabel (O : Type)
  | preloadSingleOSC (osc : O)
  | chunk
  | finish
  | lookupAndEvictOSC (osc : O)

variable [DecidableEq O] (layout : MemoryLayout O)

inductive RecordStep : RecordState O → RecordLabel O → RecordState O → Prop
  | preloadSingleOSC {c osc} : RecordStep ⟨c, none⟩ (.preloadSingleOSC osc)
      ⟨c, some (osc, layout.getOSCStart osc, false)⟩
  | chunk {c osc oscStart skipPreload c' oscStart' skipPreload'} :
    oscStart < layout.getOSCEnd osc →
    c.preloadChunk layout osc oscStart skipPreload = .ok (c', oscStart', skipPreload') →
    RecordStep ⟨c, some (osc, oscStart, skipPreload)⟩ .chunk
      ⟨c', some (osc, oscStart', skipPreload')⟩
  | finish {c osc oscStart skipPreload} : ¬ oscStart < layout.getOSCEnd osc →
    RecordStep ⟨c, some (osc, oscStart, skipPreload)⟩ .finish ⟨c, none⟩
  | lookupAndEvictOSC {c osc} : RecordStep ⟨c, none⟩ (.lookupAndEvictOSC osc)
      ⟨c.lookupAndEvictOSC layout osc, none⟩

/-- The step does not spoil the record. A round of a preload finds its part on record up to the same
end, or it has found no part before; an eviction finds nothing on record. -/
def Keeps (m : RecordState O) : RecordLabel O → Prop
  | .chunk => ∀ osc oscStart skipPreload, m.preload = some (osc, oscStart, skipPreload) →
    oscStart ≠ 0 →
    match m.cache.findWay oscStart with
    | some way => (m.cache.mCacheWays way).dataEnd =
        preloadEnd layout oscStart (layout.getOSCEnd osc)
    | none => skipPreload = false
  | .lookupAndEvictOSC osc => ∀ way < m.cache.mCacheWayCount,
      (m.cache.mCacheWays way).dataStart ≠ 0 → ¬ m.cache.contains layout osc way
  | _ => True

/-- A step that does not spoil the record. -/
def KeepingStep (m : RecordState O) (l : RecordLabel O) (m' : RecordState O) : Prop :=
  RecordStep layout m l m' ∧ Keeps layout m l

/-! ## One step -/

variable {layout} {c c' : GenericCacheManagement O} {osc : O} {oscStart oscStart' : Nat}
  {skipPreload skipPreload' : Bool}

omit [DecidableEq O] in
/-- What a round of a preload leaves: the part on record in the way that was handed out, and
prefetched to it unless the round skips that. -/
theorem preloadChunk_eq_ok
    (h : c.preloadChunk layout osc oscStart skipPreload = .ok (c', oscStart', skipPreload')) :
    ∃ way c₁ textEnd, HandsOut c oscStart way c₁ ∧
      skipPreload' = (skipPreload || (c₁.mCacheWays way).dataStart == oscStart) ∧
      c'.mCacheWayCount = c.mCacheWayCount ∧
      (∀ v ≠ way, (c'.mCacheWays v).unaged = (c.mCacheWays v).unaged ∧
        c'.lastOperation v = c.lastOperation v) ∧
      (c'.mCacheWays way).permanentLocked = (c.mCacheWays way).permanentLocked ∧
      (c'.mCacheWays way).dataStart = oscStart ∧
      (c'.mCacheWays way).dataEnd = preloadEnd layout oscStart (layout.getOSCEnd osc) ∧
      (c'.lastOperation way = if skipPreload' then c₁.lastOperation way
        else some (.prefetchDataToWay oscStart
          (preloadEnd layout oscStart (layout.getOSCEnd osc)) textEnd)) ∧
      (c'.mCacheWays way).osc = some osc ∧ (c'.mCacheWays way).inUse = true := by
  rw [preloadChunk] at h
  split at h
  · simp at h
  · next way c₁ hway =>
    have hhands := getLRUWay_some hway
    generalize hskip : (skipPreload || (c₁.mCacheWays way).dataStart == oscStart) = skip at h
    simp only [Except.ok.injEq, Prod.mk.injEq] at h
    obtain ⟨rfl, -, rfl⟩ := h
    refine ⟨way, c₁, if layout.getOSCTextEnd osc ≤ preloadEnd layout oscStart (layout.getOSCEnd osc)
      then layout.getOSCTextEnd osc else preloadEnd layout oscStart (layout.getOSCEnd osc), hhands,
      hskip.symm, ?_⟩
    clear hskip
    cases skip with
    | true =>
      refine ⟨hhands.count, fun v hv => ?_, ?_, ?_, ?_, ?_, ?_, ?_⟩
      · simpa [setOsc, setDataEnd, setDataStart, modifyWay_of_ne hv] using hhands.other v hv
      · simpa [setOsc, setDataEnd, setDataStart] using hhands.locked
      · simp [setOsc, setDataEnd, setDataStart]
      · simp [setOsc, setDataEnd, setDataStart]
      · rfl
      · simp [setOsc]
      · simpa [setOsc, setDataEnd, setDataStart] using hhands.inUse
    | false =>
      refine ⟨hhands.count, fun v hv => ?_, ?_, ?_, ?_, ?_, ?_, ?_⟩
      · simpa [setOsc, setDataEnd, setDataStart, modifyWay_of_ne hv, prefetchDataToWay,
          Function.update_of_ne hv] using hhands.other v hv
      · simpa [setOsc, setDataEnd, setDataStart, prefetchDataToWay] using hhands.locked
      · simp [setOsc, setDataEnd, setDataStart]
      · simp [setOsc, setDataEnd, setDataStart]
      · simp [setOsc, setDataEnd, setDataStart, prefetchDataToWay]
      · simp [setOsc]
      · simpa [setOsc, setDataEnd, setDataStart, prefetchDataToWay] using hhands.inUse

/-- The record as the runs keep it. -/
structure RecordInv (c : GenericCacheManagement O) : Prop where
  matches_ : c.RecordMatches
  empty : c.FreeWaysEmpty

omit [DecidableEq O] in
/-- The other ways are not touched by a round of a preload. -/
theorem recordInv_of_other {way : Nat} (h : RecordInv c)
    (hcount : c'.mCacheWayCount = c.mCacheWayCount)
    (hother : ∀ v ≠ way, (c'.mCacheWays v).unaged = (c.mCacheWays v).unaged ∧
      c'.lastOperation v = c.lastOperation v)
    (hmatches : (c'.mCacheWays way).dataStart ≠ 0 →
      ∃ textEnd, c'.lastOperation way = some (.prefetchDataToWay (c'.mCacheWays way).dataStart
        (c'.mCacheWays way).dataEnd textEnd))
    (hempty : (c'.mCacheWays way).dataStart = 0 →
      (c'.mCacheWays way).permanentLocked = false →
      ∀ start end_ textEnd, c'.lastOperation way ≠
        some (.prefetchDataToWay start end_ textEnd)) : RecordInv c' := by
  refine ⟨fun v hv hstart => ?_, fun v hv hstart hlocked => ?_⟩
  · rcases eq_or_ne v way with rfl | hne
    · exact hmatches hstart
    · obtain ⟨hway, hop⟩ := hother v hne
      obtain ⟨-, hs, he, -, -⟩ := CacheWayState.unaged_eq_iff.mp hway
      rw [hs] at hstart
      rw [hop, hs, he]
      exact h.matches_ v (hcount ▸ hv) hstart
  · rcases eq_or_ne v way with rfl | hne
    · exact hempty hstart hlocked
    · obtain ⟨hway, hop⟩ := hother v hne
      obtain ⟨hl, hs, -, -, -⟩ := CacheWayState.unaged_eq_iff.mp hway
      rw [hs] at hstart
      rw [hl] at hlocked
      rw [hop]
      exact h.empty v (hcount ▸ hv) hstart hlocked

omit [DecidableEq O] in
/-- A way that did not record the part holds nothing when it is handed out. -/
theorem RecordInv.not_prefetched {way : Nat} (h : RecordInv c) (hhands : HandsOut c oscStart way c')
    (hnone : c.findWay oscStart = none) (start end_ textEnd : Nat) :
    c'.lastOperation way ≠ some (.prefetchDataToWay start end_ textEnd) := by
  rcases hhands.cases with ⟨hfound, -⟩ | ⟨-, hfree, -, -, hop⟩
  · rw [hnone] at hfound
    cases hfound
  · rw [hop]
    split
    · next hzero => exact h.empty way hhands.lt hzero hfree start end_ textEnd
    · simp

omit [DecidableEq O] in
/-- When the last operation on the way, as a round of a preload leaves it, prefetched the part. -/
theorem RecordInv.prefetched_iff {way oscEnd textEnd : Nat} {last : Option CacheOperation}
    (h : RecordInv c) (hhands : HandsOut c oscStart way c') (hne : oscStart ≠ 0)
    (hlast : last = if skipPreload || (c'.mCacheWays way).dataStart == oscStart then
      c'.lastOperation way else some (.prefetchDataToWay oscStart oscEnd textEnd)) :
    (∃ textEnd', last = some (.prefetchDataToWay oscStart oscEnd textEnd')) ↔
      match c.findWay oscStart with
      | some way => (c.mCacheWays way).dataEnd = oscEnd
      | none => skipPreload = false := by
  rcases hhands.cases with ⟨hfound, hstart, -, hop⟩ | ⟨hnone, -, -, hzero, -⟩
  · obtain ⟨hlt, hstart₀⟩ := findWay_eq_some hfound
    obtain ⟨textEnd₀, hmatch⟩ := h.matches_ way hlt (hstart₀ ▸ hne)
    have hkept : last = some (.prefetchDataToWay oscStart (c.mCacheWays way).dataEnd textEnd₀) := by
      rw [hlast, if_pos (by simp [hstart]), hop, hmatch, hstart₀]
    rw [hfound]
    constructor
    · rintro ⟨textEnd', heq⟩
      rw [hkept] at heq
      simp only [Option.some.injEq, CacheOperation.prefetchDataToWay.injEq] at heq
      exact heq.2.1
    · intro heq
      exact ⟨textEnd₀, by rw [hkept, heq]⟩
  · rw [hnone]
    have hmiss : ((c'.mCacheWays way).dataStart == oscStart) = false := by
      simpa [hzero] using hne.symm
    rw [hmiss, Bool.or_false] at hlast
    cases skipPreload with
    | true =>
      refine iff_of_false ?_ (by simp)
      rintro ⟨textEnd', heq⟩
      exact h.not_prefetched hhands hnone _ _ _ (hlast ▸ heq)
    | false => exact iff_of_true ⟨textEnd, hlast⟩ rfl

omit [DecidableEq O] in
/-- A round that meets the condition keeps the match, and one that does not loses it. -/
theorem RecordInv.preloadChunk (h : RecordInv c)
    (hok : c.preloadChunk layout osc oscStart skipPreload = .ok (c', oscStart', skipPreload')) :
    (c'.RecordMatches ↔ (oscStart ≠ 0 → match c.findWay oscStart with
      | some way => (c.mCacheWays way).dataEnd = preloadEnd layout oscStart (layout.getOSCEnd osc)
      | none => skipPreload = false)) ∧ (c'.RecordMatches → RecordInv c') := by
  obtain ⟨way, c₁, textEnd, hhands, rfl, hcount, hother, hlocked, hstart, hend, hop, -⟩ :=
    preloadChunk_eq_ok hok
  have hlt : way < c'.mCacheWayCount := hcount ▸ hhands.lt
  have hinv := recordInv_of_other h hcount hother
  rw [hstart, hend, hlocked] at hinv
  rcases Nat.eq_zero_or_pos oscStart with rfl | hpos
  · -- the way records nothing afterwards, and the round has prefetched nothing
    have hc' : RecordInv c' := by
      refine hinv (fun hne => absurd rfl hne) fun _ hfree start end_ textEnd' => ?_
      rcases hhands.cases with ⟨hfound, hzero₁, -, hop₁⟩ | ⟨hnone, -, -, hzero₁, -⟩
      · obtain ⟨-, hzero⟩ := findWay_eq_some hfound
        rw [hop, if_pos (by simp [hzero₁]), hop₁]
        exact h.empty way hhands.lt hzero hfree start end_ textEnd'
      · rw [hop, if_pos (by simp [hzero₁])]
        exact h.not_prefetched hhands hnone start end_ textEnd'
    exact ⟨iff_of_true hc'.matches_ fun hne => absurd rfl hne, fun _ => hc'⟩
  · have hne : oscStart ≠ 0 := hpos.ne'
    have hempty : oscStart = 0 → (c.mCacheWays way).permanentLocked = false →
        ∀ start end_ textEnd, c'.lastOperation way ≠
          some (.prefetchDataToWay start end_ textEnd) := fun h0 => absurd h0 hne
    have hiff := h.prefetched_iff hhands hne hop
    have hkept : (∃ textEnd', c'.lastOperation way = some (.prefetchDataToWay oscStart
        (preloadEnd layout oscStart (layout.getOSCEnd osc)) textEnd')) → RecordInv c' :=
      fun hprefetched => hinv (fun _ => hprefetched) hempty
    have hback : c'.RecordMatches → ∃ textEnd', c'.lastOperation way =
        some (.prefetchDataToWay oscStart
          (preloadEnd layout oscStart (layout.getOSCEnd osc)) textEnd') := by
      intro hmatches
      have := hmatches way hlt (hstart ▸ hne)
      rwa [hstart, hend] at this
    refine ⟨⟨fun hmatches _ => hiff.mp (hback hmatches), fun hcond => ?_⟩,
      fun hmatches => hkept (hback hmatches)⟩
    exact (hkept (hiff.mpr (hcond hne))).matches_

/-- An eviction that finds nothing on record keeps the match, and one that finds something loses
it. -/
theorem RecordInv.lookupAndEvictOSC (h : RecordInv c) (osc : O) :
    ((c.lookupAndEvictOSC layout osc).RecordMatches ↔ ∀ way < c.mCacheWayCount,
      (c.mCacheWays way).dataStart ≠ 0 → ¬ c.contains layout osc way) ∧
      ((c.lookupAndEvictOSC layout osc).RecordMatches →
        RecordInv (c.lookupAndEvictOSC layout osc)) := by
  have hcount := lookupAndEvictOSC_count layout osc c
  have hempty : (c.lookupAndEvictOSC layout osc).FreeWaysEmpty := by
    intro way hway hstart hlocked start end_ textEnd
    obtain ⟨hl, hs, -, hop⟩ := lookupAndEvictOSC_way layout osc (hcount ▸ hway)
    rw [hl] at hlocked
    rw [hs] at hstart
    rw [hop]
    split
    · simp
    · exact h.empty way (hcount ▸ hway) hstart hlocked start end_ textEnd
  refine ⟨⟨fun hmatches way hway hstart hcontains => ?_, fun hnone way hway hstart => ?_⟩,
    fun hmatches => ⟨hmatches, hempty⟩⟩
  · obtain ⟨-, hs, -, hop⟩ := lookupAndEvictOSC_way layout osc hway
    obtain ⟨textEnd, hlast⟩ := hmatches way (hcount ▸ hway) (hs ▸ hstart)
    rw [hop, if_pos hcontains] at hlast
    simp at hlast
  · rw [hcount] at hway
    obtain ⟨-, hs, he, hop⟩ := lookupAndEvictOSC_way layout osc hway
    rw [hs] at hstart
    rw [hop, hs, he, if_neg (hnone way hway hstart)]
    exact h.matches_ way hway hstart

/-- A step that meets the condition keeps the match, and one that does not loses it. -/
theorem RecordStep.record_iff {m m' : RecordState O} {l : RecordLabel O}
    (hstep : RecordStep layout m l m') (h : RecordInv m.cache) :
    (m'.cache.RecordMatches ↔ Keeps layout m l) ∧
      (m'.cache.RecordMatches → RecordInv m'.cache) := by
  cases hstep with
  | preloadSingleOSC => exact ⟨iff_of_true h.matches_ trivial, fun _ => h⟩
  | @chunk c osc oscStart skipPreload c' oscStart' skipPreload' hlt hok =>
    obtain ⟨hiff, hkept⟩ := h.preloadChunk hok
    refine ⟨hiff.trans ⟨fun hcond osc' start skip heq => ?_, fun hkeeps => ?_⟩, hkept⟩
    · simp only [Option.some.injEq, Prod.mk.injEq] at heq
      obtain ⟨rfl, rfl, rfl⟩ := heq
      exact hcond
    · exact hkeeps osc oscStart skipPreload rfl
  | finish => exact ⟨iff_of_true h.matches_ trivial, fun _ => h⟩
  | @lookupAndEvictOSC c osc => exact h.lookupAndEvictOSC osc

/-! ## Calls are runs -/

/-- A preload consists of rounds, and hangs only in a round for which no way is free. -/
theorem preloadLoop_run (layout : MemoryLayout O) (osc : O) {fuel : Nat}
    (c : GenericCacheManagement O) (oscStart : Nat) (skipPreload : Bool)
    (hfuel : layout.getOSCEnd osc - oscStart ≤ fuel) :
    (∃ c' ls, preloadLoop layout osc fuel c oscStart skipPreload = .ok c' ∧
      Run (RecordStep layout) ⟨c, some (osc, oscStart, skipPreload)⟩ ls ⟨c', none⟩) ∨
    ∃ c' ls oscStart' skipPreload',
      preloadLoop layout osc fuel c oscStart skipPreload = .error .hang ∧
      Run (RecordStep layout) ⟨c, some (osc, oscStart, skipPreload)⟩ ls
        ⟨c', some (osc, oscStart', skipPreload')⟩ ∧
      oscStart' < layout.getOSCEnd osc ∧ (c'.getLRUWay oscStart').1 = none := by
  induction fuel generalizing c oscStart skipPreload with
  | zero =>
    have hdone : ¬ oscStart < layout.getOSCEnd osc := by omega
    refine .inl ⟨c, _, ?_, .single (.finish hdone)⟩
    rw [preloadLoop, if_neg hdone]
  | succ fuel ih =>
    rw [preloadLoop]
    split
    · next hlt =>
      rcases hway : c.getLRUWay oscStart with ⟨found, c₁⟩
      cases found with
      | none =>
        refine .inr ⟨c, [], oscStart, skipPreload, ?_, .nil, hlt, by rw [hway]⟩
        simp [preloadChunk, hway, bind, Except.bind]
      | some way =>
        have hchunk : ∃ c₂ skip, c.preloadChunk layout osc oscStart skipPreload = .ok (c₂,
            nextStart (preloadEnd layout oscStart (layout.getOSCEnd osc)) (layout.getOSCEnd osc),
            skip) := by
          rw [preloadChunk, hway]
          exact ⟨_, _, rfl⟩
        obtain ⟨c₂, skip, hchunk⟩ := hchunk
        have hstep := RecordStep.chunk hlt hchunk
        have hmoves := lt_nextStart layout hlt
        rw [hchunk]
        rcases ih c₂ (nextStart (preloadEnd layout oscStart (layout.getOSCEnd osc))
            (layout.getOSCEnd osc)) skip (by omega) with
          ⟨c', ls, hok, hrun⟩ | ⟨c', ls, start, skip', herr, hrun, hrest⟩
        · exact .inl ⟨c', _, hok, Run.append (.single hstep) hrun⟩
        · exact .inr ⟨c', _, start, skip', herr, Run.append (.single hstep) hrun, hrest⟩
    · next hdone => exact .inl ⟨c, _, rfl, .single (.finish hdone)⟩

theorem preloadSingleOSC_run (layout : MemoryLayout O) (c : GenericCacheManagement O) (osc : O) :
    (∃ c' ls, c.preloadSingleOSC layout osc = .ok c' ∧
      Run (RecordStep layout) ⟨c, none⟩ ls ⟨c', none⟩) ∨
    ∃ c' ls oscStart skipPreload, c.preloadSingleOSC layout osc = .error .hang ∧
      Run (RecordStep layout) ⟨c, none⟩ ls ⟨c', some (osc, oscStart, skipPreload)⟩ ∧
      oscStart < layout.getOSCEnd osc ∧ (c'.getLRUWay oscStart).1 = none := by
  have hstart : RecordStep layout ⟨c, none⟩ (.preloadSingleOSC osc)
      ⟨c, some (osc, layout.getOSCStart osc, false)⟩ := .preloadSingleOSC
  rcases preloadLoop_run layout osc c (layout.getOSCStart osc) false (le_refl _) with
    ⟨c', ls, hok, hrun⟩ | ⟨c', ls, start, skip, herr, hrun, hrest⟩
  · exact .inl ⟨c', _, hok, (Run.single hstart).append hrun⟩
  · exact .inr ⟨c', _, start, skip, herr, (Run.single hstart).append hrun, hrest⟩

/-- A preload of a component with its dependencies that returns is a run. -/
theorem preloadOSC_run {pDeps : List O} (h : c.preloadOSC layout osc pDeps = .ok c') :
    ∃ ls, Run (RecordStep layout) ⟨c, none⟩ ls ⟨c', none⟩ := by
  rw [preloadOSC] at h
  generalize osc :: pDeps = oscs at h
  induction oscs generalizing c with
  | nil =>
    obtain rfl : c = c' := by simpa using h
    exact ⟨[], .nil⟩
  | cons osc oscs ih =>
    rw [List.foldlM_cons] at h
    obtain ⟨c₁, hok, h⟩ := Exec.bind_eq_ok.mp h
    obtain ⟨ls, hrun⟩ := ih h
    rcases preloadSingleOSC_run layout c osc with ⟨c₂, ls₁, hok₁, hrun₁⟩ | ⟨_, _, _, _, herr, -⟩
    · rw [hok₁] at hok
      cases hok
      exact ⟨_, hrun₁.append hrun⟩
    · rw [herr] at hok
      cases hok

theorem evictOSC_run (layout : MemoryLayout O) (c : GenericCacheManagement O) (osc : O)
    (pDeps : List O) :
    ∃ ls, Run (RecordStep layout) ⟨c, none⟩ ls ⟨c.evictOSC layout osc pDeps, none⟩ := by
  rw [evictOSC]
  generalize osc :: pDeps = oscs
  induction oscs generalizing c with
  | nil => exact ⟨[], .nil⟩
  | cons osc oscs ih =>
    obtain ⟨ls, hrun⟩ := ih (c.lookupAndEvictOSC layout osc)
    exact ⟨_, Run.append (.single .lookupAndEvictOSC) hrun⟩

/-! ## Runs -/

omit [DecidableEq O] in
theorem RecordInv.booted (h : Booted layout c) : RecordInv c := by
  refine ⟨fun way _ hstart => ?_, fun way _ _ hlocked start end_ textEnd => ?_⟩
  · exact absurd (h.unused way).dataStart hstart
  · rw [(h.unused way).lastOperation hlocked]
    simp

/-- In a run whose steps all meet the condition the record matches in every state; and from there
the record matches after one more step exactly if that step meets it too. -/
theorem recordMatches_iff {ls : List (RecordLabel O)} {m : RecordState O} (hboot : Booted layout c)
    (hrun : Run (KeepingStep layout) ⟨c, none⟩ ls m) :
    m.cache.RecordMatches ∧ ∀ l m', RecordStep layout m l m' →
      (m'.cache.RecordMatches ↔ Keeps layout m l) := by
  have hinv : RecordInv m.cache := by
    refine hrun.invariant (motive := fun m => RecordInv m.cache) (RecordInv.booted hboot) ?_
    intro m l m' h hstep
    obtain ⟨hiff, hkept⟩ := hstep.1.record_iff h
    exact hkept (hiff.mpr hstep.2)
  exact ⟨hinv.matches_, fun l m' hstep => (hstep.record_iff hinv).1⟩

theorem four_le_way : 4 ≤ 0x8000 := by decide

/-- A component of one page, on a machine with two ways of eight pages. -/
def onePage : MemoryLayout Unit where
  getOSCStart _ := 0x1000
  getOSCTextEnd _ := 0x1800
  getOSCEnd _ := 0x2000
  getCacheWaySize := 0x8000
  four_le := four_le_way

/-- A preload of a component that no way records. -/
theorem recordMatches_iff_onePage :
    ∃ ls c, Run (KeepingStep onePage) ⟨new 2, none⟩ ls ⟨c, none⟩ ∧ c.RecordMatches := by
  have hstart : KeepingStep onePage ⟨new 2, none⟩ (.preloadSingleOSC ())
      ⟨new 2, some ((), 0x1000, false)⟩ := ⟨.preloadSingleOSC, trivial⟩
  obtain ⟨c, hchunk⟩ : ∃ c, (new 2).preloadChunk onePage () 0x1000 false =
      .ok (c, 0x2000, false) := ⟨_, rfl⟩
  have hkeeps : Keeps onePage ⟨new 2, some ((), 0x1000, false)⟩ .chunk := by
    intro osc oscStart skipPreload h _
    simp only [Option.some.injEq, Prod.mk.injEq] at h
    obtain ⟨-, rfl, rfl⟩ := h
    exact rfl
  have hrun : Run (KeepingStep onePage) ⟨new 2, none⟩ _ ⟨c, none⟩ :=
    ((Run.single hstart).snoc ⟨.chunk (by decide) hchunk, hkeeps⟩).snoc
      ⟨.finish (by decide), trivial⟩
  exact ⟨_, c, hrun, (recordMatches_iff (.new 2) hrun).1⟩

/-- An eviction leaves the component on record in a way that no longer holds it. -/
theorem evictOSC_not_recordMatches : ¬ ∀ (osc : Unit) (c : GenericCacheManagement Unit),
    (new 2).preloadOSC onePage osc [] = .ok c → (c.evictOSC onePage osc []).RecordMatches := by
  intro h
  have hways := h () _ rfl 0 (by decide) (by decide)
  obtain ⟨textEnd, hlast⟩ := hways
  have hevicted : (some .evictCacheWay : Option CacheOperation) = some _ := hlast
  simp at hevicted

end GenericCacheManagement
end CyPhOS
