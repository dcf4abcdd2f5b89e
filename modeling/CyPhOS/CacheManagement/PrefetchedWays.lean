import CyPhOS.CacheManagement.Residency
import CyPhOS.CacheManagement.WayUse

/-! # Which ways have been prefetched to

`SharedStep` keeps of each way what the port has done to it last. `SharedState.operation` is what a
step asks of the port. While the CPUs preload and evict, a way was prefetched to last only if it is
for the part on record in it, or for the one that is about to be recorded (`PrefetchInv`). So no part
is in two ways.

A component of which nothing is on record when its preload begins is prefetched as a whole, whatever
the other CPUs do meanwhile, and stays so until its CPU evicts it (`fresh_preload`).
-/

namespace CyPhOS

open Transition

namespace GenericCacheManagement

variable {C O : Type} [DecidableEq C] [DecidableEq O] {layout : MemoryLayout O}
  {c c' : GenericCacheManagement O} {x : CpuState O} {m m' : SharedState C O} {cpu : C} {osc : O}
  {dataStart oscStart way start end_ textEnd : Nat} {l : SharedLabel C O}

/-- What a step calls the port for, and for which way. -/
def SharedState.operation (layout : MemoryLayout O) (m : SharedState C O) :
    SharedLabel C O → Option (Nat × CacheOperation)
  | .getLRUWay _ _ dataStart way =>
    if m.cache.findWay dataStart = none ∧ (m.cache.mCacheWays way).dataStart ≠ 0 then
      some (way, .evictCacheWay)
    else none
  | .prefetchDataToWay cpu _ =>
    match (m.cpus cpu).control with
    | .handedOut osc oscStart skipPreload way =>
      let preloadEnd := preloadEnd layout oscStart (layout.getOSCEnd osc)
      let oscTextEnd := layout.getOSCTextEnd osc
      if skipPreload || (m.cache.mCacheWays way).dataStart == oscStart then none
      else some (way, .prefetchDataToWay oscStart preloadEnd
        (if oscTextEnd ≤ preloadEnd then oscTextEnd else preloadEnd))
    | _ => none
  | .evictCacheWay cpu _ =>
    match (m.cpus cpu).control with
    | .evict osc way =>
      if m.cache.contains layout osc way then some (way, .evictCacheWay) else none
    | _ => none
  | _ => none

/-- The last operations on the ways after a call of the port. -/
def performed (lastOperation : Nat → Option CacheOperation) :
    Option (Nat × CacheOperation) → Nat → Option CacheOperation
  | none => lastOperation
  | some (way, operation) => Function.update lastOperation way (some operation)

/-- A step does to the ways what it calls the port for. -/
theorem SharedStep.lastOperation (h : SharedStep layout m l m') :
    m'.cache.lastOperation = performed m.cache.lastOperation (m.operation layout l) := by
  cases h with
  | activate | preloadSingleOSC | setDataStart | setDataEnd | setOsc | preloaded
  | lookupAndEvictOSC => rfl
  | @getLRUWay cpu osc oscStart skipPreload way c _ _ hcall =>
    have hhands := getLRUWay_some hcall
    change c.lastOperation = _
    funext v
    rcases hhands.cases with ⟨hfound, -, -, hop⟩ | ⟨hnone, -, -, -, hop⟩
    · have hnone : m.operation layout (.getLRUWay cpu osc oscStart way) = none :=
        if_neg fun h => by simp [hfound] at h
      rw [hnone]
      rcases eq_or_ne v way with rfl | hne
      · exact hop
      · exact (hhands.other v hne).2
    · by_cases hstart : (m.cache.mCacheWays way).dataStart = 0
      · have hnone : m.operation layout (.getLRUWay cpu osc oscStart way) = none :=
          if_neg fun h => h.2 hstart
        rw [if_pos hstart] at hop
        rw [hnone]
        rcases eq_or_ne v way with rfl | hne
        · exact hop
        · exact (hhands.other v hne).2
      · have hevict : m.operation layout (.getLRUWay cpu osc oscStart way) =
            some (way, .evictCacheWay) := if_pos ⟨hnone, hstart⟩
        rw [if_neg hstart] at hop
        rw [hevict, performed, Function.update_apply]
        split
        next hv => rw [hv, hop]
        next hne => exact (hhands.other v hne).2
  | @noWay cpu osc oscStart skipPreload c _ _ hcall => exact (getLRUWay_none hcall).operation
  | @skipPreload cpu osc oscStart skipPreload way hcontrol hskip =>
    simp [SharedState.operation, hcontrol, hskip, performed]
  | @prefetchDataToWay cpu osc oscStart skipPreload way textEnd hcontrol hskip htext =>
    simp [SharedState.operation, hcontrol, hskip, performed,
      GenericCacheManagement.prefetchDataToWay, htext]
  | @evictCacheWay cpu osc way hcontrol _ =>
    simp only [SharedState.operation, hcontrol, SharedState.goto_cache, evictOne]
    split <;> rfl
  | @freeOSC cpu osc way _ _ => exact funext fun v => congrFun (freeLoop_eq layout osc _ _).1 v

/-- A way that is prefetched to after a step was so before, or the step has called for it. -/
theorem SharedStep.prefetched (h : SharedStep layout m l m')
    (hway : m'.cache.lastOperation way = some (.prefetchDataToWay start end_ textEnd)) :
    m.operation layout l = some (way, .prefetchDataToWay start end_ textEnd) ∨
      m.cache.lastOperation way = some (.prefetchDataToWay start end_ textEnd) ∧
        ∀ operation, m.operation layout l ≠ some (way, operation) := by
  rw [h.lastOperation] at hway
  rcases hcall : m.operation layout l with _ | ⟨v, operation⟩
  · rw [hcall] at hway
    exact .inr ⟨hway, by simp⟩
  · rw [hcall, performed, Function.update_apply] at hway
    split at hway
    next hv =>
      subst hv
      obtain rfl := Option.some.inj hway
      exact .inl rfl
    next hne => exact .inr ⟨hway, by simp [Ne.symm hne]⟩

/-- A call to prefetch comes from a CPU that has been handed out the way. -/
theorem SharedStep.control_of_prefetch (hstep : SharedStep layout m l m')
    (h : m.operation layout l = some (way, .prefetchDataToWay start end_ textEnd)) :
    ∃ osc, (m.cpus l.caller).control = .handedOut osc start false way ∧
      (m'.cpus l.caller).control = .prefetched osc start false way ∧
      (m.cache.mCacheWays way).dataStart ≠ start ∧
      end_ = preloadEnd layout start (layout.getOSCEnd osc) := by
  cases hstep with
  | activate | preloadSingleOSC | noWay | setDataStart | setDataEnd | setOsc | preloaded
  | lookupAndEvictOSC | freeOSC => cases h
  | getLRUWay =>
    simp only [SharedState.operation] at h
    split at h <;> simp at h
  | evictCacheWay hfrom =>
    simp only [SharedState.operation, hfrom] at h
    split at h <;> simp at h
  | skipPreload hfrom hskip => simp [SharedState.operation, hfrom, hskip] at h
  | @prefetchDataToWay cpu osc oscStart skipPreload v textEnd' hfrom hskip _ =>
    simp only [SharedState.operation, hfrom, hskip, Bool.false_eq_true, if_false, Option.some.injEq,
      Prod.mk.injEq, CacheOperation.prefetchDataToWay.injEq] at h
    obtain ⟨rfl, rfl, rfl, -⟩ := h
    simp only [Bool.or_eq_false_iff, beq_eq_false_iff_ne] at hskip
    obtain ⟨rfl, hstart⟩ := hskip
    exact ⟨osc, hfrom, by simp [SharedLabel.caller], hstart, rfl⟩

/-! ## The ways that have been prefetched to -/

/-- A CPU that has called for a prefetch has the way, nothing is on record in it yet, and it was
prefetched to last. A way that was prefetched to last is for a part of a component, and the part is on
record in it or about to be recorded. -/
structure PrefetchInv (layout : MemoryLayout O) (m : SharedState C O) : Prop where
  use : UseInv layout m
  round : ∀ cpu osc oscStart way,
    (m.cpus cpu).control = .prefetched osc oscStart false way →
    (m.cache.mCacheWays way).dataStart = 0 ∧ ∃ textEnd, m.cache.lastOperation way =
      some (.prefetchDataToWay oscStart (preloadEnd layout oscStart (layout.getOSCEnd osc)) textEnd)
  way : ∀ way < m.cache.mCacheWayCount, (m.cache.mCacheWays way).permanentLocked = false →
    ∀ start end_ textEnd,
      m.cache.lastOperation way = some (.prefetchDataToWay start end_ textEnd) →
      (∃ osc, (start, end_) ∈ chunks layout (layout.getOSCStart osc) (layout.getOSCEnd osc)) ∧
      ((m.cache.mCacheWays way).dataStart = start ∨
        ∃ cpu osc, (m.cpus cpu).control = .prefetched osc start false way)

/-- The address that is on record of a way after a step. -/
theorem SharedStep.dataStart_cases (h : SharedStep layout m l m') (way : Nat) :
    (m'.cache.mCacheWays way).dataStart = (m.cache.mCacheWays way).dataStart ∨
      (m'.cache.mCacheWays way).dataStart = 0 ∧
        ((m.cache.mCacheWays way).dataStart ≠ 0 →
          m.operation layout l = some (way, .evictCacheWay)) ∨
      ∃ osc dataStart, l = .setDataStart l.caller osc dataStart way ∧
        (m'.cache.mCacheWays way).dataStart = dataStart := by
  have hmodify : ∀ (v : Nat) (f : CacheWayState O → CacheWayState O),
      (∀ w, (f w).dataStart = w.dataStart) →
      ((m.cache.modifyWay v f).mCacheWays way).dataStart = (m.cache.mCacheWays way).dataStart := by
    intro v f hf
    rcases eq_or_ne way v with rfl | hne
    · rw [modifyWay_self, hf]
    · rw [modifyWay_of_ne hne]
  cases h with
  | activate | preloadSingleOSC | skipPreload | prefetchDataToWay | preloaded
  | lookupAndEvictOSC => exact .inl rfl
  | @getLRUWay cpu osc oscStart skipPreload v c _ _ hcall =>
    have hhands := getLRUWay_some hcall
    rcases eq_or_ne way v with rfl | hne
    · rcases hhands.cases with ⟨hfound, hstart, -⟩ | ⟨hnone, -, -, hzero, -⟩
      · exact .inl (hstart.trans (findWay_eq_some hfound).2.symm)
      · exact .inr (.inl ⟨hzero, fun hne => if_pos ⟨hnone, hne⟩⟩)
    · exact .inl (SameUse.of_unaged (hhands.other way hne).1).dataStart
  | @noWay cpu osc oscStart skipPreload c _ _ hcall =>
    exact .inl (SameUse.of_unaged ((getLRUWay_none hcall).way way)).dataStart
  | @setDataStart cpu osc oscStart skipPreload v hcontrol =>
    rcases eq_or_ne way v with rfl | hne
    · refine .inr (.inr ⟨osc, oscStart, rfl, ?_⟩)
      simp [GenericCacheManagement.setDataStart]
    · have hsame : (m.cache.setDataStart v oscStart).mCacheWays way = m.cache.mCacheWays way :=
        modifyWay_of_ne hne
      exact .inl (congrArg CacheWayState.dataStart hsame)
  | setDataEnd => exact .inl (hmodify _ (fun w => { w with dataEnd := _ }) fun _ => rfl)
  | setOsc => exact .inl (hmodify _ (fun w => { w with osc := _ }) fun _ => rfl)
  | @evictCacheWay cpu osc v _ _ => exact .inl (SameUse.evictOne layout osc m.cache v way).dataStart
  | @freeOSC cpu osc v _ _ => exact .inl (freeOSC_way layout m.cache osc way).2.1

omit [DecidableEq C] [DecidableEq O] in
/-- The part that a CPU preloads is one of its component. -/
theorem UseInv.mem_chunks (h : UseInv layout m)
    (hplace : (m.cpus cpu).control.place = some (osc, oscStart))
    (hlt : oscStart < layout.getOSCEnd osc) :
    (oscStart, preloadEnd layout oscStart (layout.getOSCEnd osc)) ∈
      chunks layout (layout.getOSCStart osc) (layout.getOSCEnd osc) := by
  obtain ⟨done, hall, -⟩ := h.loads cpu osc oscStart hplace
  rw [hall, chunks_of_lt hlt]
  simp

/-- A CPU that has called for a prefetch was handed out the way, or stays where it is. -/
theorem SharedStep.prefetchedAt (h : SharedStep layout m l m')
    (hcontrol : (m'.cpus cpu).control = .prefetched osc oscStart false way) :
    (cpu ≠ l.caller ∧ (m.cpus cpu).control = .prefetched osc oscStart false way) ∨
      ∃ textEnd, m.operation layout l = some (way, .prefetchDataToWay oscStart
        (preloadEnd layout oscStart (layout.getOSCEnd osc)) textEnd) ∧
      (m.cpus cpu).control = .handedOut osc oscStart false way ∧
      (m.cache.mCacheWays way).dataStart ≠ oscStart ∧ m'.cache.mCacheWays = m.cache.mCacheWays := by
  by_cases hcpu : cpu = l.caller
  swap
  · exact .inl ⟨hcpu, h.cpus_of_ne hcpu ▸ hcontrol⟩
  subst hcpu
  cases h with
  | @prefetchDataToWay cpu osc' oscStart' skipPreload way' textEnd hfrom hskip htext =>
    obtain ⟨rfl, rfl, rfl⟩ : osc' = osc ∧ oscStart' = oscStart ∧ way' = way := by
      simpa [SharedLabel.caller] using hcontrol
    obtain ⟨rfl, hne⟩ : skipPreload = false ∧ (m.cache.mCacheWays way').dataStart ≠ oscStart' := by
      simpa using hskip
    refine .inr ⟨textEnd, ?_, hfrom, hne, rfl⟩
    simp [SharedState.operation, hfrom, hne, htext]
  | activate hfrom | getLRUWay hfrom | noWay hfrom | skipPreload hfrom | setDataStart hfrom
  | setDataEnd hfrom | setOsc hfrom | preloaded hfrom | lookupAndEvictOSC hfrom
  | evictCacheWay hfrom | freeOSC hfrom | preloadSingleOSC hfrom =>
    simp [SharedLabel.caller, hfrom] at hcontrol

/-- A step keeps the invariant. -/
theorem PrefetchInv.step (hlayout : layout.Disjoint) (h : PrefetchInv layout m)
    (hstep : SharedStep layout m l m') : PrefetchInv layout m' := by
  have hex := h.use.exclusive
  have hrounds := fun cpu => (hex.cpu cpu).holds
  refine ⟨h.use.step hlayout hstep, fun cpu osc oscStart way hcontrol => ?_,
    fun way hlt hunlocked start end_ textEnd hway => ?_⟩
  · rcases hstep.prefetchedAt hcontrol with ⟨hne, hold⟩ | ⟨textEnd, hcall, hold, hne, hways⟩
    · obtain ⟨hzero, hop⟩ := h.round cpu osc oscStart way hold
      obtain ⟨hholds, -⟩ := hrounds cpu osc oscStart way false (by rw [hold]; rfl)
      have hrecord := hholds.record_eq hlayout hex hstep (by rintro rfl; exact hne rfl)
        (by rintro rfl; exact hne rfl) (by rintro rfl; exact hne rfl)
      have hoperation := hholds.operation_eq hlayout hex hstep (by rintro rfl; exact hne rfl)
        (by rintro rfl; exact hne rfl)
      simp only [CacheWayState.record, Prod.mk.injEq] at hrecord
      exact ⟨hrecord.1.trans hzero, hoperation ▸ hop⟩
    · obtain ⟨hholds, -⟩ := hrounds cpu osc oscStart way false (by rw [hold]; rfl)
      refine ⟨?_, textEnd, ?_⟩
      · rw [hways]
        exact (hholds.dataStart.resolve_left hne).1
      · rw [hstep.lastOperation, hcall, performed, Function.update_self]
  · rcases hstep.prefetched hway with hcall | ⟨hold, hnot⟩
    · obtain ⟨osc, hcontrol, hcontrol', -, rfl⟩ := hstep.control_of_prefetch hcall
      obtain ⟨hholds, -⟩ := hrounds l.caller osc start way false (by rw [hcontrol]; rfl)
      exact ⟨⟨osc, h.use.mem_chunks (by rw [hcontrol]; rfl) hholds.lt_end⟩,
        .inr ⟨l.caller, osc, hcontrol'⟩⟩
    · obtain ⟨hcount, hlocks⟩ := hstep.locks
      obtain ⟨⟨osc, hchunk⟩, hrecord⟩ :=
        h.way way (hcount ▸ hlt) (hlocks way ▸ hunlocked) start end_ textEnd hold
      have hpos : 0 < start := (hlayout.start_pos osc).trans_le (le_of_mem_chunks hchunk)
      refine ⟨⟨osc, hchunk⟩, ?_⟩
      rcases hrecord with hstart | ⟨cpu, osc', hcontrol⟩
      · rcases hstep.dataStart_cases way with hsame | ⟨-, hevict⟩ | ⟨osc', a, hl, hset⟩
        · exact .inl (hsame.trans hstart)
        · exact absurd (hevict (by omega)) (hnot _)
        · rw [hl] at hstep
          cases hstep with
          | setDataStart hfrom =>
            obtain ⟨hholds, -⟩ := hrounds _ osc' a way false (by rw [hfrom]; rfl)
            rcases hholds.dataStart with ha | ⟨hzero, -⟩
            · exact .inl (hset.trans (ha.symm.trans hstart))
            · omega
      · by_cases hcpu : cpu = l.caller
        · subst hcpu
          refine .inl ?_
          cases hstep with
          | setDataStart hfrom =>
            simp only [SharedLabel.caller] at hcontrol
            rw [hcontrol] at hfrom
            cases hfrom
            simp [GenericCacheManagement.setDataStart]
          | activate hfrom | getLRUWay hfrom | noWay hfrom | skipPreload hfrom
          | prefetchDataToWay hfrom | setDataEnd hfrom | setOsc hfrom | preloaded hfrom
          | lookupAndEvictOSC hfrom | evictCacheWay hfrom | freeOSC hfrom
          | preloadSingleOSC hfrom =>
            simp [SharedLabel.caller, hfrom] at hcontrol
        · exact .inr ⟨cpu, osc', (hstep.cpus_of_ne hcpu).symm ▸ hcontrol⟩

omit [DecidableEq C] [DecidableEq O] in
theorem PrefetchInv.initial (hboot : Booted layout c) :
    PrefetchInv layout (SharedState.initial (C := C) c) := by
  refine ⟨.initial hboot, fun cpu osc oscStart way hcontrol => ?_,
    fun way _ hunlocked start end_ textEnd hway => ?_⟩
  · cases hcontrol
  · have hnone := (hboot.unused way).lastOperation hunlocked
    rw [SharedState.initial, hnone] at hway
    cases hway

omit [DecidableEq C] [DecidableEq O] in
/-- No part has been prefetched to two ways. -/
theorem PrefetchInv.way_unique (hlayout : layout.Disjoint) (h : PrefetchInv layout m) {v : Nat}
    {end' textEnd' : Nat} (hway : way < m.cache.mCacheWayCount)
    (hunlocked : (m.cache.mCacheWays way).permanentLocked = false)
    (hlast : m.cache.lastOperation way = some (.prefetchDataToWay start end_ textEnd))
    (hv : v < m.cache.mCacheWayCount)
    (hunlocked' : (m.cache.mCacheWays v).permanentLocked = false)
    (hlast' : m.cache.lastOperation v = some (.prefetchDataToWay start end' textEnd')) :
    v = way := by
  obtain ⟨⟨osc, hchunk⟩, hrecord⟩ := h.way way hway hunlocked start end_ textEnd hlast
  obtain ⟨-, hrecord'⟩ := h.way v hv hunlocked' start end' textEnd' hlast'
  have hpos : 0 < start := (hlayout.start_pos osc).trans_le (le_of_mem_chunks hchunk)
  have hex := h.use.exclusive
  rcases hrecord with hstart | ⟨cpu, osc₁, hcontrol⟩ <;>
    rcases hrecord' with hstart' | ⟨cpu', osc₂, hcontrol'⟩
  · exact hex.unique way hway v hv (by omega) (hstart'.trans hstart.symm)
  · exact (((hex.cpu cpu').holds osc₂ start v false (by rw [hcontrol']; rfl)).2 way hway
      hstart).symm
  · exact ((hex.cpu cpu).holds osc₁ start way false (by rw [hcontrol]; rfl)).2 v hv hstart'
  · obtain ⟨hholds, -⟩ := (hex.cpu cpu).holds osc₁ start way false (by rw [hcontrol]; rfl)
    obtain ⟨hholds', -⟩ := (hex.cpu cpu').holds osc₂ start v false (by rw [hcontrol']; rfl)
    obtain ⟨rfl, -⟩ := hex.eq_of_part hlayout hholds.preloaded hholds.start_le hholds.lt_end
      hholds'.preloaded hholds'.start_le hholds'.lt_end
    rw [hcontrol] at hcontrol'
    cases hcontrol'
    rfl

/-! ## Components of which nothing is on record -/

/-- The part is on record for the CPU in a way that it was prefetched to. -/
def PartPrefetched (layout : MemoryLayout O) (c : GenericCacheManagement O) (x : CpuState O) (osc : O)
    (chunk : Nat × Nat) : Prop :=
  ∃ way textEnd, RecordedFor layout c x osc chunk.1 way ∧
    c.lastOperation way = some (.prefetchDataToWay chunk.1 chunk.2 textEnd)

/-- A preload skips the prefetch of its parts from here on. -/
def Control.skips : Control O → Bool
  | preload _ _ skipPreload | handedOut _ _ skipPreload _ | prefetched _ _ skipPreload _
  | startWritten _ _ skipPreload _ | endWritten _ _ skipPreload _ => skipPreload
  | _ => false

/-- The CPU preloads a component of which nothing was on record, or has done so and not begun to
evict it. The parts that it has come past are prefetched; those that are to come are not on record,
but for the one that it is about to record. -/
structure FreshPreload (layout : MemoryLayout O) (m : SharedState C O) (cpu : C) (osc : O) :
    Prop where
  evict : ∀ way, (m.cpus cpu).control ≠ .evict osc way
  skips : ∀ a, (m.cpus cpu).control.place = some (osc, a) → (m.cpus cpu).control.skips = false
  pending : ∀ a, (m.cpus cpu).control.place = some (osc, a) →
    ∀ chunk ∈ chunks layout a (layout.getOSCEnd osc), m.cache.findWay chunk.1 = none ∨
      ∃ way textEnd, (m.cpus cpu).control.round = some (osc, chunk.1, way, true) ∧
        m.cache.lastOperation way = some (.prefetchDataToWay chunk.1 chunk.2 textEnd)
  done : (m.cpus cpu).control ≠ .noWay →
    ∀ chunk ∈ chunks layout (layout.getOSCStart osc) (layout.getOSCEnd osc),
      PartPrefetched layout m.cache (m.cpus cpu) osc chunk ∨
        ∃ a, (m.cpus cpu).control.place = some (osc, a) ∧
          chunk ∈ chunks layout a (layout.getOSCEnd osc)

omit [DecidableEq C] [DecidableEq O] in
theorem findWay_eq_none_iff : c.findWay dataStart = none ↔
    ∀ v < c.mCacheWayCount, (c.mCacheWays v).dataStart ≠ dataStart := by
  refine ⟨findWay_eq_none, fun h => ?_⟩
  cases hfound : c.findWay dataStart with
  | none => rfl
  | some way => exact absurd (findWay_eq_some hfound).2 (h way (findWay_eq_some hfound).1)

/-- A prefetched part stays so as long as its component is not evicted. -/
theorem PartPrefetched.step {chunk : Nat × Nat} (hlayout : layout.Disjoint) (h : Exclusive layout m)
    (hpart : PartPrefetched layout m.cache (m.cpus cpu) osc chunk)
    (hevict : ∀ way, (m.cpus cpu).control ≠ .evict osc way) (hstep : SharedStep layout m l m') :
    PartPrefetched layout m'.cache (m'.cpus cpu) osc chunk := by
  obtain ⟨way, textEnd, hrec, hlast⟩ := hpart
  have hl : l ≠ .freeOSC cpu osc := by
    rintro rfl
    cases hstep with
    | freeOSC hcontrol => exact hevict _ hcontrol
  refine ⟨way, textEnd, hrec.step hlayout h hstep hl, hlast ▸ ?_⟩
  by_cases hprefetch : l = .prefetchDataToWay cpu way
  · subst hprefetch
    cases hstep with
    | skipPreload => rfl
    | @prefetchDataToWay _ osc' a skipPreload _ textEnd' hcontrol hskip =>
      -- the way would have been handed out for the part that it records
      obtain ⟨hholds, -⟩ := (h.cpu cpu).holds osc' a way false (by rw [hcontrol]; rfl)
      obtain ⟨-, -, rfl⟩ := h.holder_unique hlayout hrec.holds hholds
      simp [hrec.dataStart] at hskip
  by_cases hevicts : l = .evictCacheWay cpu way
  · subst hevicts
    cases hstep with
    | @evictCacheWay _ osc' _ hcontrol =>
      have hnot : ¬ m.cache.contains layout osc' way := by
        intro hcontains
        obtain rfl := hrec.holds.contains hlayout hcontains
        exact hevict way hcontrol
      simp only [SharedState.goto_cache, evictOne, if_neg hnot]
  · exact hrec.holds.operation_eq hlayout h hstep hprefetch hevicts

/-- A part that is not on record is recorded by the CPU that preloads it, if at all. -/
theorem SharedStep.offRecord (hlayout : layout.Disjoint) {chunk : Nat × Nat}
    (h : SharedStep layout m l m') (hchunk : chunk ∈ chunks layout oscStart (layout.getOSCEnd osc))
    (hstart : layout.getOSCStart osc ≤ oscStart) (hoff : m.cache.findWay chunk.1 = none)
    (hl : ∀ osc way, l ≠ .setDataStart l.caller osc chunk.1 way) :
    m'.cache.findWay chunk.1 = none := by
  have hpos : 0 < chunk.1 :=
    (hlayout.start_pos osc).trans_le (hstart.trans (le_of_mem_chunks hchunk))
  refine findWay_eq_none_iff.mpr fun way hway hrecords => ?_
  have hnot := findWay_eq_none hoff way (h.locks.1 ▸ hway)
  rcases h.dataStart_cases way with hsame | ⟨hzero, -⟩ | ⟨osc', a, hset, ha⟩
  · exact hnot (hsame.symm.trans hrecords)
  · omega
  · rw [hrecords] at ha
    subst ha
    exact hl osc' way hset

omit [DecidableEq C] [DecidableEq O] in
theorem lt_of_mem_chunks {oscEnd : Nat} {chunk : Nat × Nat}
    (h : chunk ∈ chunks layout oscStart oscEnd) : chunk.1 < oscEnd := by
  induction oscStart using chunks.induct layout oscEnd with
  | case1 oscStart hlt _ ih =>
    rw [chunks_of_lt hlt] at h
    rcases List.mem_cons.mp h with rfl | h
    · exact hlt
    · exact ih h
  | case2 oscStart hdone =>
    rw [chunks_of_not_lt hdone] at h
    cases h

omit [DecidableEq C] [DecidableEq O] in
/-- What a CPU is preloading counts as preloaded. -/
theorem Exclusive.preloaded_of_place (h : Exclusive layout m)
    (hplace : (m.cpus cpu).control.place = some (osc, oscStart)) :
    osc ∈ (m.cpus cpu).preloaded := by
  have hround : ∀ way written, (m.cpus cpu).control.round = some (osc, oscStart, way, written) →
      osc ∈ (m.cpus cpu).preloaded := fun way written hround =>
    ((h.cpu cpu).holds osc oscStart way written hround).1.preloaded
  cases hcontrol : (m.cpus cpu).control <;> rw [hcontrol] at hplace hround <;> cases hplace
  case preload => exact ((h.cpu cpu).preload _ _ _ hcontrol).1
  case handedOut | prefetched | startWritten | endWritten => exact hround _ _ rfl

omit [DecidableEq C] [DecidableEq O] in
theorem UseInv.mem_chunks_of_place (h : UseInv layout m) {chunk : Nat × Nat}
    (hplace : (m.cpus cpu).control.place = some (osc, oscStart))
    (hchunk : chunk ∈ chunks layout oscStart (layout.getOSCEnd osc)) :
    chunk ∈ chunks layout (layout.getOSCStart osc) (layout.getOSCEnd osc) := by
  obtain ⟨done, hall, -⟩ := h.loads cpu osc oscStart hplace
  rw [hall]
  exact List.mem_append_right _ hchunk

/-- The other CPUs leave the preload alone. -/
theorem FreshPreload.step_of_other (hlayout : layout.Disjoint) (hinv : PrefetchInv layout m)
    (h : FreshPreload layout m cpu osc) (hstep : SharedStep layout m l m') (hl : cpu ≠ l.caller) :
    FreshPreload layout m' cpu osc := by
  have hex := hinv.use.exclusive
  have hcpus := hstep.cpus_of_ne hl
  refine ⟨hcpus ▸ h.evict, hcpus ▸ h.skips, fun a hplace chunk hchunk => ?_,
    fun hnoWay chunk hchunk => ?_⟩
  · rw [hcpus] at hplace ⊢
    have hpart := hinv.use.mem_chunks_of_place hplace hchunk
    rcases h.pending a hplace chunk hchunk with hoff | ⟨way, textEnd, hround, hlast⟩
    · refine .inl (hstep.offRecord hlayout hpart le_rfl hoff fun osc' way hset => ?_)
      rw [hset] at hstep
      cases hstep with
      | setDataStart hcontrol =>
        obtain ⟨hother, -⟩ := (hex.cpu l.caller).holds osc' chunk.1 way false (by rw [hcontrol]; rfl)
        exact hl (hex.eq_of_part hlayout hother.preloaded hother.start_le hother.lt_end
          (hex.preloaded_of_place hplace) (le_of_mem_chunks hpart) (lt_of_mem_chunks hpart)).1
    · obtain ⟨hholds, -⟩ := (hex.cpu cpu).holds osc chunk.1 way true hround
      refine .inr ⟨way, textEnd, hround, hlast ▸ hholds.operation_eq hlayout hex hstep ?_ ?_⟩ <;>
      · rintro rfl
        exact hl rfl
  · rw [hcpus] at hnoWay
    refine (h.done hnoWay chunk hchunk).imp (fun hpart => ?_) fun hplace => hcpus ▸ hplace
    exact hpart.step hlayout hex h.evict hstep

/-- A CPU comes to evict a component when it looks it up. -/
theorem SharedStep.evictAt (h : SharedStep layout m l m')
    (hevict : (m'.cpus l.caller).control = .evict osc way) :
    l = .lookupAndEvictOSC l.caller osc ∨ ∃ v, (m.cpus l.caller).control = .evict osc v := by
  cases h with
  | activate hfrom | preloadSingleOSC hfrom | getLRUWay hfrom | noWay hfrom | skipPreload hfrom
  | prefetchDataToWay hfrom | setDataStart hfrom | setDataEnd hfrom | setOsc hfrom
  | preloaded hfrom | freeOSC hfrom =>
    simp [SharedLabel.caller, hfrom] at hevict
  | lookupAndEvictOSC hfrom =>
    simp only [SharedLabel.caller, SharedState.goto_cpus_self, Control.evict.injEq] at hevict
    exact .inl (by rw [hevict.1]; rfl)
  | evictCacheWay hfrom =>
    simp only [SharedLabel.caller, SharedState.goto_cpus_self, Control.evict.injEq] at hevict
    exact .inr ⟨_, by rw [← hevict.1]; exact hfrom⟩

omit [DecidableEq C] [DecidableEq O] in
theorem FreshPreload.of_place {a : Nat} (hplace : (m.cpus cpu).control.place = some (osc, a))
    (hskips : (m.cpus cpu).control.skips = false)
    (hpending : ∀ chunk ∈ chunks layout a (layout.getOSCEnd osc), m.cache.findWay chunk.1 = none ∨
      ∃ way textEnd, (m.cpus cpu).control.round = some (osc, chunk.1, way, true) ∧
        m.cache.lastOperation way = some (.prefetchDataToWay chunk.1 chunk.2 textEnd))
    (hdone : ∀ chunk ∈ chunks layout (layout.getOSCStart osc) (layout.getOSCEnd osc),
      PartPrefetched layout m.cache (m.cpus cpu) osc chunk ∨
        chunk ∈ chunks layout a (layout.getOSCEnd osc)) : FreshPreload layout m cpu osc := by
  refine ⟨fun way hevict => ?_, fun _ _ => hskips, fun a' ha' => ?_, fun _ chunk hchunk => ?_⟩
  · rw [hevict] at hplace
    cases hplace
  · rw [hplace] at ha'
    cases ha'
    exact hpending
  · exact (hdone chunk hchunk).imp_right fun hmem => ⟨a, hplace, hmem⟩

/-- What a CPU does next in a preload that skips nothing. -/
theorem SharedStep.preload_cases (h : SharedStep layout m l m') {a : Nat}
    (hplace : (m.cpus l.caller).control.place = some (osc, a))
    (hskips : (m.cpus l.caller).control.skips = false) :
    (m'.cpus l.caller).control = .noWay ∨
    ((m'.cpus l.caller).control = .idle ∧ ¬ a < layout.getOSCEnd osc) ∨
    ((m'.cpus l.caller).control.place = some (osc, a) ∧ (m'.cpus l.caller).control.skips = false ∧
      (∀ osc' start way, l ≠ .setDataStart l.caller osc' start way) ∧
      ∀ start way, (m.cpus l.caller).control.round = some (osc, start, way, true) →
        (m'.cpus l.caller).control.round = some (osc, start, way, true) ∧
          m'.cache.lastOperation = m.cache.lastOperation) ∨
    (∃ way, (m.cpus l.caller).control = .handedOut osc a false way ∧
      (m.cache.mCacheWays way).dataStart = a) ∨
    (∃ way, l = .setDataStart l.caller osc a way) ∨ ∃ way, l = .setOsc l.caller osc a way := by
  cases h with
  | activate hfrom | preloadSingleOSC hfrom | lookupAndEvictOSC hfrom | evictCacheWay hfrom
  | freeOSC hfrom => simp [SharedLabel.caller, hfrom, Control.place] at hplace
  | noWay => exact .inl (by simp [SharedLabel.caller])
  | @preloaded i o b skipPreload hfrom hend =>
    obtain ⟨rfl, rfl⟩ : o = osc ∧ b = a := by
      simpa [SharedLabel.caller, hfrom, Control.place] using hplace
    exact .inr (.inl ⟨by simp [SharedLabel.caller], hend⟩)
  | @getLRUWay i o b skipPreload way c hfrom | @prefetchDataToWay i o b skipPreload way _ hfrom
  | @setDataEnd i o b skipPreload way hfrom =>
    obtain ⟨rfl, rfl⟩ : o = osc ∧ b = a := by
      simpa [SharedLabel.caller, hfrom, Control.place] using hplace
    obtain rfl : skipPreload = false := by
      simpa [SharedLabel.caller, hfrom, Control.skips] using hskips
    refine .inr (.inr (.inl ⟨?_, ?_, by simp, fun start v hround => ?_⟩))
    · simp [SharedLabel.caller, Control.place]
    · simp [SharedLabel.caller, Control.skips]
    · simp [SharedLabel.caller, hfrom, Control.round] at hround <;>
        exact ⟨by simpa [SharedLabel.caller, Control.round] using hround, rfl⟩
  | @skipPreload i o b skipPreload way hfrom hskip =>
    obtain ⟨rfl, rfl⟩ : o = osc ∧ b = a := by
      simpa [SharedLabel.caller, hfrom, Control.place] using hplace
    obtain rfl : skipPreload = false := by
      simpa [SharedLabel.caller, hfrom, Control.skips] using hskips
    exact .inr (.inr (.inr (.inl ⟨way, hfrom, by simpa using hskip⟩)))
  | @setDataStart i o b skipPreload way hfrom =>
    obtain ⟨rfl, rfl⟩ : o = osc ∧ b = a := by
      simpa [SharedLabel.caller, hfrom, Control.place] using hplace
    exact .inr (.inr (.inr (.inr (.inl ⟨way, rfl⟩))))
  | @setOsc i o b skipPreload way hfrom =>
    obtain ⟨rfl, rfl⟩ : o = osc ∧ b = a := by
      simpa [SharedLabel.caller, hfrom, Control.place] using hplace
    exact .inr (.inr (.inr (.inr (.inr ⟨way, rfl⟩))))

/-- What has been done stays done while the CPU goes on with the preload. -/
theorem FreshPreload.done_step (h : FreshPreload layout m cpu osc) (hlayout : layout.Disjoint)
    (hinv : PrefetchInv layout m) {a : Nat} (chunk : Nat × Nat)
    (hplace : (m.cpus cpu).control.place = some (osc, a)) (hstep : SharedStep layout m l m')
    (hchunk : chunk ∈ chunks layout (layout.getOSCStart osc) (layout.getOSCEnd osc)) :
    PartPrefetched layout m'.cache (m'.cpus cpu) osc chunk ∨
      chunk ∈ chunks layout a (layout.getOSCEnd osc) := by
  refine (h.done ?_ chunk hchunk).imp
    (fun hpart => hpart.step hlayout hinv.use.exclusive h.evict hstep) ?_
  · intro hnoWay
    rw [hnoWay] at hplace
    cases hplace
  · rintro ⟨a', ha', hmem⟩
    rw [hplace] at ha'
    cases ha'
    exact hmem

omit [DecidableEq C] [DecidableEq O] in
/-- A CPU that has not recorded the part yet finds nothing of what is to come on record. -/
theorem FreshPreload.offRecord (h : FreshPreload layout m cpu osc) {a : Nat}
    (hplace : (m.cpus cpu).control.place = some (osc, a))
    (hround : ∀ start way, (m.cpus cpu).control.round ≠ some (osc, start, way, true))
    {chunk : Nat × Nat} (hchunk : chunk ∈ chunks layout a (layout.getOSCEnd osc)) :
    m.cache.findWay chunk.1 = none := by
  refine (h.pending a hplace chunk hchunk).resolve_right ?_
  rintro ⟨way, textEnd, hwritten, -⟩
  exact hround chunk.1 way hwritten

/-- The CPU records the part that it has prefetched. -/
theorem FreshPreload.setDataStart (hlayout : layout.Disjoint) (hinv : PrefetchInv layout m)
    (h : FreshPreload layout m cpu osc) {a : Nat}
    (hstep : SharedStep layout m (.setDataStart cpu osc a way) m') :
    FreshPreload layout m' cpu osc := by
  obtain ⟨skipPreload, hfrom⟩ : ∃ skipPreload,
      (m.cpus cpu).control = .prefetched osc a skipPreload way := by
    cases hstep with
    | setDataStart hfrom => exact ⟨_, hfrom⟩
  have hplace : (m.cpus cpu).control.place = some (osc, a) := by rw [hfrom]; rfl
  obtain rfl : skipPreload = false := by simpa [hfrom, Control.skips] using h.skips a hplace
  obtain ⟨hholds, -⟩ := (hinv.use.exclusive.cpu cpu).holds osc a way false (by rw [hfrom]; rfl)
  obtain ⟨-, textEnd, hlast⟩ := hinv.round cpu osc a way hfrom
  have hdone := fun chunk => h.done_step hlayout hinv chunk hplace hstep
  have hstarts := (chunks_chunkList layout osc a).starts
  have hpending : ∀ chunk ∈ chunks layout a (layout.getOSCEnd osc),
      chunk = (a, preloadEnd layout a (layout.getOSCEnd osc)) ∨
        m'.cache.findWay chunk.1 = none := by
    intro chunk hchunk
    have hnone := h.offRecord hplace (by simp [hfrom, Control.round]) hchunk
    have hall := hinv.use.mem_chunks_of_place hplace hchunk
    rw [chunks_of_lt hholds.lt_end] at hchunk hstarts
    refine (List.mem_cons.mp hchunk).imp_right fun hlater => ?_
    have hne := (List.pairwise_cons.mp hstarts).1 chunk hlater
    refine hstep.offRecord hlayout hall le_rfl hnone fun osc' way' hset => ?_
    simp only [SharedLabel.setDataStart.injEq] at hset
    exact hne hset.2.2.1
  cases hstep with
  | setDataStart hfrom' =>
    cases hfrom.symm.trans hfrom'
    refine .of_place (a := a) ?_ ?_ (fun chunk hchunk => ?_) hdone
    · simp [Control.place]
    · simp [Control.skips]
    · rcases hpending chunk hchunk with rfl | hnone
      · exact .inr ⟨way, textEnd, by simp [Control.round], hlast⟩
      · exact .inl hnone

/-- The CPU is done with a part, which was prefetched. -/
theorem FreshPreload.setOsc (hlayout : layout.Disjoint) (hinv : PrefetchInv layout m)
    (h : FreshPreload layout m cpu osc) {a : Nat}
    (hstep : SharedStep layout m (.setOsc cpu osc a way) m') : FreshPreload layout m' cpu osc := by
  obtain ⟨skipPreload, hfrom⟩ : ∃ skipPreload,
      (m.cpus cpu).control = .endWritten osc a skipPreload way := by
    cases hstep with
    | setOsc hfrom => exact ⟨_, hfrom⟩
  have hplace : (m.cpus cpu).control.place = some (osc, a) := by rw [hfrom]; rfl
  obtain rfl : skipPreload = false := by simpa [hfrom, Control.skips] using h.skips a hplace
  obtain ⟨hholds, -⟩ := (hinv.use.exclusive.cpu cpu).holds osc a way true (by rw [hfrom]; rfl)
  have hon : (m.cache.mCacheWays way).dataStart = a :=
    hholds.dataStart.resolve_right (by simp [hfrom, Control.round])
  have hsplit : chunks layout a (layout.getOSCEnd osc) = _ := chunks_of_lt hholds.lt_end
  have hpending := h.pending a hplace
  -- the part that is recorded now was prefetched
  obtain ⟨textEnd, hlast⟩ : ∃ textEnd, m.cache.lastOperation way = some (.prefetchDataToWay a
      (preloadEnd layout a (layout.getOSCEnd osc)) textEnd) := by
    rcases hpending _ (hsplit ▸ List.mem_cons_self) with hnone | ⟨v, textEnd, hround, hlast⟩
    · exact absurd hon (findWay_eq_none hnone way hholds.lt)
    · obtain rfl : way = v := by simpa [hfrom, Control.round] using hround
      exact ⟨textEnd, hlast⟩
  have hstarts := (chunks_chunkList layout osc a).starts
  have hdone := fun chunk => h.done_step hlayout hinv chunk hplace hstep
  rw [hsplit] at hdone hstarts
  have hlater : ∀ chunk ∈ chunks layout (nextStart (preloadEnd layout a (layout.getOSCEnd osc))
      (layout.getOSCEnd osc)) (layout.getOSCEnd osc), m'.cache.findWay chunk.1 = none := by
    intro chunk hchunk
    have hmem : chunk ∈ chunks layout a (layout.getOSCEnd osc) := hsplit ▸ .tail _ hchunk
    refine hstep.offRecord hlayout (hinv.use.mem_chunks_of_place hplace hmem) le_rfl
      ((hpending chunk hmem).resolve_right ?_) (by simp)
    rintro ⟨v, textEnd, hround, -⟩
    simp only [hfrom, Control.round, Option.some.injEq, Prod.mk.injEq] at hround
    exact (List.pairwise_cons.mp hstarts).1 chunk hchunk hround.2.1
  cases hstep with
  | setOsc hfrom' =>
    cases hfrom.symm.trans hfrom'
    refine .of_place (a := nextStart (preloadEnd layout a (layout.getOSCEnd osc))
      (layout.getOSCEnd osc)) ?_ ?_ (fun chunk hchunk => .inl (hlater chunk hchunk))
      (fun chunk hchunk => ?_)
    · simp [Control.place]
    · simp [Control.skips]
    · rcases hdone chunk hchunk with hpart | hmem
      · exact .inl hpart
      rcases List.mem_cons.mp hmem with rfl | hmem
      · have hsame : SameUse m.cache (m.cache.setOsc way osc) way :=
          .modifyWay fun _ => ⟨rfl, rfl, rfl⟩
        refine .inl ⟨way, textEnd, ⟨hholds.toHasWay.frame rfl hsame ?_, ?_, ?_⟩, hlast⟩
        · simpa using hholds.preloaded
        · simpa [GenericCacheManagement.setOsc] using hon
        · simp [GenericCacheManagement.setOsc]
      · exact .inr hmem

/-- The CPU goes on with the preload. -/
theorem FreshPreload.step_self (hlayout : layout.Disjoint) (hinv : PrefetchInv layout m)
    {a : Nat} (h : FreshPreload layout m l.caller osc)
    (hplace : (m.cpus l.caller).control.place = some (osc, a)) (hstep : SharedStep layout m l m') :
    FreshPreload layout m' l.caller osc := by
  have hdone := fun chunk => h.done_step hlayout hinv chunk hplace hstep
  rcases hstep.preload_cases hplace (h.skips a hplace) with hnoWay | ⟨hidle, hend⟩ |
    ⟨hplace', hskips', hno, hround⟩ | ⟨way, hfrom, hstart⟩ | ⟨way, hset⟩ | ⟨way, hset⟩
  · refine ⟨?_, ?_, ?_, fun hnot => absurd hnoWay hnot⟩ <;> simp [hnoWay, Control.place]
  · rw [chunks_of_not_lt hend] at hdone
    refine ⟨?_, ?_, ?_, fun _ chunk hchunk =>
      .inl ((hdone chunk hchunk).resolve_right List.not_mem_nil)⟩ <;> simp [hidle, Control.place]
  · refine .of_place hplace' hskips' (fun chunk hchunk => ?_) hdone
    rcases h.pending a hplace chunk hchunk with hnone | ⟨v, textEnd, hwritten, hlast⟩
    · have hall := hinv.use.mem_chunks_of_place hplace hchunk
      exact .inl (hstep.offRecord hlayout hall le_rfl hnone fun _ _ => hno _ _ _)
    · obtain ⟨hround', hsame⟩ := hround chunk.1 v hwritten
      exact .inr ⟨v, textEnd, hround', hsame ▸ hlast⟩
  · -- the part would have to be on record
    obtain ⟨hholds, -⟩ :=
      (hinv.use.exclusive.cpu l.caller).holds osc a way false (by rw [hfrom]; rfl)
    have hnone := h.offRecord hplace (by simp [hfrom, Control.round])
      (chunks_of_lt hholds.lt_end ▸ List.mem_cons_self)
    exact absurd hstart (findWay_eq_none hnone way hholds.lt)
  · exact h.setDataStart hlayout hinv (hset ▸ hstep)
  · exact h.setOsc hlayout hinv (hset ▸ hstep)

theorem FreshPreload.step (hlayout : layout.Disjoint) (hinv : PrefetchInv layout m)
    (h : FreshPreload layout m cpu osc) (hstep : SharedStep layout m l m')
    (hpreload : l ≠ .preloadSingleOSC cpu osc) (hevict : l ≠ .lookupAndEvictOSC cpu osc) :
    FreshPreload layout m' cpu osc := by
  rcases ne_or_eq cpu l.caller with hne | rfl
  · exact h.step_of_other hlayout hinv hstep hne
  by_cases hplace : ∃ a, (m.cpus l.caller).control.place = some (osc, a)
  · obtain ⟨a, hplace⟩ := hplace
    exact h.step_self hlayout hinv hplace hstep
  -- a CPU that is not preloading the component has preloaded it
  have hplace' : ∀ a, (m'.cpus l.caller).control.place ≠ some (osc, a) := by
    intro a ha
    rcases hstep.place ha with hold | ⟨hstart, -⟩ | ⟨oscStart, way, -, hround, -⟩
    · exact hplace ⟨a, hold⟩
    · exact hpreload hstart
    · exact hplace ⟨oscStart, Control.place_of_round hround⟩
  refine ⟨fun way hcontrol => ?_, fun a ha => absurd ha (hplace' a),
    fun a ha => absurd ha (hplace' a), fun _ chunk hchunk => .inl ?_⟩
  · rcases hstep.evictAt hcontrol with hlookup | ⟨v, hv⟩
    · exact hevict hlookup
    · exact h.evict v hv
  · have hnoWay : (m.cpus l.caller).control ≠ .noWay := by
      cases hstep <;> simp_all [SharedLabel.caller]
    have hpart := (h.done hnoWay chunk hchunk).resolve_right fun h => hplace (h.imp fun _ => And.left)
    exact hpart.step hlayout hinv.use.exclusive h.evict hstep

/-! ## Runs -/

theorem PrefetchInv.of_run (hlayout : layout.Disjoint) {ls : List (SharedLabel C O)}
    (h : PrefetchInv layout m) (hrun : Run (SharedStep layout) m ls m') : PrefetchInv layout m' :=
  hrun.invariant h fun h hstep => h.step hlayout hstep

/-- A preload begins, of a component of which nothing is on record. -/
theorem FreshPreload.begin (hstep : SharedStep layout m (.preloadSingleOSC cpu osc) m')
    (hfresh : ∀ chunk ∈ chunks layout (layout.getOSCStart osc) (layout.getOSCEnd osc),
      m.cache.findWay chunk.1 = none) : FreshPreload layout m' cpu osc := by
  cases hstep with
  | preloadSingleOSC hfrom =>
    refine .of_place (a := layout.getOSCStart osc) ?_ ?_ (fun chunk hchunk => .inl ?_)
      fun _ hchunk => .inr hchunk
    · simp [Control.place]
    · simp [Control.skips]
    · exact hfresh chunk hchunk

theorem FreshPreload.of_run (hlayout : layout.Disjoint) {ls : List (SharedLabel C O)}
    (hinv : PrefetchInv layout m) (h : FreshPreload layout m cpu osc)
    (hrun : Run (SharedStep layout) m ls m') (hpreload : .preloadSingleOSC cpu osc ∉ ls)
    (hevict : .lookupAndEvictOSC cpu osc ∉ ls) : FreshPreload layout m' cpu osc := by
  induction hrun with
  | nil => exact h
  | @snoc ls m₁ l m₂ hrun hstep ih =>
    simp only [List.mem_append, List.mem_singleton, not_or] at hpreload hevict
    exact (ih hpreload.1 hevict.1).step hlayout (hinv.of_run hlayout hrun) hstep
      (Ne.symm hpreload.2) (Ne.symm hevict.2)

/-- If nothing of a component is on record when a CPU begins to preload it, then from the end of the
preload on until the CPU looks it up to evict it, whatever the other CPUs preload and evict
meanwhile, each of its parts is on record in a way that is in use for it, and the last thing done to
that way was to prefetch the part. -/
theorem fresh_preload (hlayout : layout.Disjoint) (hboot : Booted layout c) {m₁ : SharedState C O}
    {xs ys : List (SharedLabel C O)} (hrun : Run (SharedStep layout) (.initial c) xs m)
    (hstep : SharedStep layout m (.preloadSingleOSC cpu osc) m₁)
    (hfresh : ∀ chunk ∈ chunks layout (layout.getOSCStart osc) (layout.getOSCEnd osc),
      m.cache.findWay chunk.1 = none)
    (hrun' : Run (SharedStep layout) m₁ ys m') (hpreload : .preloadSingleOSC cpu osc ∉ ys)
    (hevict : .lookupAndEvictOSC cpu osc ∉ ys) (hnoWay : (m'.cpus cpu).control ≠ .noWay)
    (hplace : ∀ a, (m'.cpus cpu).control.place ≠ some (osc, a)) :
    ∀ chunk ∈ chunks layout (layout.getOSCStart osc) (layout.getOSCEnd osc),
      PartPrefetched layout m'.cache (m'.cpus cpu) osc chunk := by
  have hinv := (PrefetchInv.initial hboot).of_run hlayout (hrun.snoc hstep)
  intro chunk hchunk
  refine (((FreshPreload.begin hstep hfresh).of_run hlayout hinv hrun' hpreload hevict).done hnoWay
    chunk hchunk).resolve_right ?_
  rintro ⟨a, ha, -⟩
  exact hplace a ha

/-- A CPU preloads a component of one page. -/
theorem fresh_preload_onePage : ∃ (xs ys : List (SharedLabel Bool Unit))
    (m : SharedState Bool Unit), Run (SharedStep onePage) (.initial (new 2))
      (xs ++ .preloadSingleOSC true () :: ys) m ∧
    PartPrefetched onePage m.cache (m.cpus true) () (0x1000, 0x2000) := by
  have hlayout : onePage.Disjoint := ⟨fun _ => Nat.succ_pos _, fun _ _ _ _ => rfl⟩
  have hchunks : chunks onePage 0x1000 0x2000 = [(0x1000, 0x2000)] := by
    rw [chunks_of_lt (by decide), chunks_of_not_lt (by decide)]
    rfl
  let m₀ : SharedState Bool Unit :=
    (SharedState.initial (new 2)).set (new 2) true ⟨[()], [], .idle⟩
  let m₁ : SharedState Bool Unit := m₀.set (new 2) true ⟨[()], [()], .preload () 0x1000 false⟩
  have hactivate : SharedStep onePage (.initial (new 2)) (.activate true [()]) m₀ :=
    .activate rfl (by simp [SharedState.initial]) (by simp [SharedState.initial])
  have hstart : SharedStep onePage m₀ (.preloadSingleOSC true ()) m₁ :=
    .preloadSingleOSC rfl (by exact List.mem_singleton_self ())
  have hway : SharedStep onePage m₁ (.getLRUWay true () 0x1000 0) _ :=
    .getLRUWay rfl (by decide) rfl
  have hrun := (Run.single hway).snoc (l := .prefetchDataToWay true 0)
    (.prefetchDataToWay rfl rfl rfl)
  have hrun := hrun.snoc (l := .setDataStart true () 0x1000 0) (.setDataStart rfl)
  have hrun := hrun.snoc (l := .setDataEnd true () 0x1000 0) (.setDataEnd rfl)
  have hrun := hrun.snoc (l := .setOsc true () 0x1000 0) (.setOsc rfl)
  have hrun := hrun.snoc (l := .preloaded true) (.preloaded rfl (by decide))
  refine ⟨_, _, _, (Run.single hactivate).append (run_cons_iff.mpr ⟨m₁, hstart, hrun⟩), ?_⟩
  have hfresh : ∀ chunk ∈ chunks onePage 0x1000 0x2000, m₀.cache.findWay chunk.1 = none := by
    simp only [hchunks, List.forall_mem_singleton]
    rfl
  refine fresh_preload hlayout (.new 2) (Run.single hactivate) hstart hfresh hrun (by simp) (by simp)
    (by simp)
    (by simp [Control.place]) _ ?_
  exact hchunks ▸ List.mem_singleton_self _

end GenericCacheManagement
end CyPhOS
