import CyPhOS.CacheManagement.Chunks
import CyPhOS.CacheManagement.Replacement
import Mathlib.Algebra.Order.BigOperators.Group.Finset

/-! # What the ways in use are used for

The runs are those of `SharedStep`. A CPU preloads a component part by part, and each part stays on
record in its way until the CPU evicts the component (`RecordedFor.step`), so a preload that has
come to an address has all parts in front of it on record (`Loads`). A way is in use only for a part
of a component that a CPU has preloaded (`UseInv`). No other CPU does anything to such a way
(`Holds.operation_eq`).
-/

namespace CyPhOS

open Transition

namespace GenericCacheManagement

variable {C O : Type} [DecidableEq C] [DecidableEq O] {layout : MemoryLayout O}
  {c c' : GenericCacheManagement O} {x x' : CpuState O} {m m' : SharedState C O} {cpu : C} {osc : O}
  {dataStart oscStart way : Nat} {l : SharedLabel C O}

/-! ## Parts on record -/

/-- The CPU has the way, and its part is on record there for its component. -/
structure RecordedFor (layout : MemoryLayout O) (c : GenericCacheManagement O) (x : CpuState O)
    (osc : O) (dataStart way : Nat) : Prop extends HasWay layout c x osc dataStart way where
  dataStart : (c.mCacheWays way).dataStart = dataStart
  osc : (c.mCacheWays way).osc = some osc

omit [DecidableEq O] in
theorem RecordedFor.holds (h : RecordedFor layout c x osc dataStart way) :
    Holds layout c x osc dataStart way :=
  ⟨h.toHasWay, .inl h.dataStart⟩

/-- A part stays on record until its holder evicts the component. -/
theorem RecordedFor.step (hlayout : layout.Disjoint) (h : Exclusive layout m)
    (hrec : RecordedFor layout m.cache (m.cpus cpu) osc dataStart way)
    (hstep : SharedStep layout m l m') (hl : l ≠ .freeOSC cpu osc) :
    RecordedFor layout m'.cache (m'.cpus cpu) osc dataStart way := by
  have hholds := hrec.holds.step hlayout h hstep hl
  suffices hrecord : (m'.cache.mCacheWays way).dataStart = dataStart ∧
      (m'.cache.mCacheWays way).osc = some osc from ⟨hholds.toHasWay, hrecord.1, hrecord.2⟩
  by_cases hstart : l = .setDataStart cpu osc dataStart way
  · subst hstart
    cases hstep
    simp [setDataStart, hrec.osc]
  by_cases hosc : l = .setOsc cpu osc dataStart way
  · subst hosc
    cases hstep
    simp [setOsc, hrec.dataStart]
  · have hrecord := hrec.holds.record_eq hlayout h hstep hstart hosc hl
    simp only [CacheWayState.record, Prod.mk.injEq] at hrecord
    exact ⟨hrecord.1.trans hrec.dataStart, hrecord.2.1.trans hrec.osc⟩

omit [DecidableEq C] [DecidableEq O] in
/-- A way that a CPU has been given to prefetch to is its holder's. -/
theorem Holds.prefetcher (hlayout : layout.Disjoint) (h : Exclusive layout m)
    (hholds : Holds layout m.cache (m.cpus cpu) osc dataStart way) {other : C} {osc' : O}
    {skipPreload : Bool} (hcontrol : (m.cpus other).control = .handedOut osc' oscStart skipPreload way) :
    other = cpu := by
  obtain ⟨hother, -⟩ := (h.cpu other).holds osc' oscStart way false (by rw [hcontrol]; rfl)
  exact (h.holder_unique hlayout hholds hother).1

omit [DecidableEq C] [DecidableEq O] in
/-- In a way that is held, a CPU that evicts another component finds nothing. -/
theorem Holds.not_contains (hlayout : layout.Disjoint) (h : Exclusive layout m)
    (hholds : Holds layout m.cache (m.cpus cpu) osc dataStart way) {other : C} {osc' : O} {way' : Nat}
    (hcontrol : (m.cpus other).control = .evict osc' way') (hne : other ≠ cpu) :
    ¬ m.cache.contains layout osc' way := by
  intro hcontains
  have hosc := (h.cpu other).evict osc' way' hcontrol
  obtain rfl := hholds.contains hlayout hcontains
  exact hne (h.disjoint other cpu _ hosc ((h.cpu cpu).active _ hholds.preloaded))

/-- Only its holder prefetches to a way and evicts what it holds. -/
theorem Holds.operation_eq (hlayout : layout.Disjoint) (h : Exclusive layout m)
    (hholds : Holds layout m.cache (m.cpus cpu) osc dataStart way)
    (hstep : SharedStep layout m l m') (hprefetch : l ≠ .prefetchDataToWay cpu way)
    (hevict : l ≠ .evictCacheWay cpu way) :
    m'.cache.lastOperation way = m.cache.lastOperation way := by
  cases hstep with
  | activate | preloadSingleOSC | skipPreload | setDataStart | setDataEnd | setOsc | preloaded
  | lookupAndEvictOSC => rfl
  | @getLRUWay other osc' oscStart skipPreload way' c hcontrol hlt hway =>
    have hhands := getLRUWay_some hway
    obtain ⟨hosc', hle⟩ := (h.cpu other).preload osc' oscStart skipPreload hcontrol
    rcases eq_or_ne way way' with rfl | hne
    · obtain ⟨rfl, rfl, rfl⟩ := hhands.holder hlayout h hosc' hle hlt hholds
      rcases hhands.cases with ⟨-, -, -, hop⟩ | ⟨-, -, hfree, -⟩
      · exact hop
      · rw [hholds.inUse] at hfree
        cases hfree
    · exact (hhands.other way hne).2
  | @noWay other osc' oscStart skipPreload c hcontrol _ hway =>
    exact congrFun (getLRUWay_none hway).operation way
  | @prefetchDataToWay other osc' oscStart skipPreload way' textEnd hcontrol _ _ =>
    have hne : way ≠ way' := by
      rintro rfl
      obtain rfl := hholds.prefetcher hlayout h hcontrol
      exact hprefetch rfl
    exact Function.update_of_ne hne ..
  | @evictCacheWay other osc' way' hcontrol _ =>
    rcases eq_or_ne way way' with rfl | hne
    · have hnot : ¬ m.cache.contains layout osc' way :=
        hholds.not_contains hlayout h hcontrol fun e => hevict (by rw [e])
      simp only [SharedState.goto_cache, evictOne, if_neg hnot]
    · simp only [SharedState.goto_cache, evictOne]
      split
      · exact Function.update_of_ne hne ..
      · rfl
  | @freeOSC other osc' way' hcontrol _ =>
    exact congrFun (freeLoop_eq layout osc' _ _).1 way

/-! ## The CPU that makes a step -/

/-- The component and the address that a preload has come to. -/
def Control.place : Control O → Option (O × Nat)
  | preload osc oscStart _ | handedOut osc oscStart _ _ | prefetched osc oscStart _ _
  | startWritten osc oscStart _ _ | endWritten osc oscStart _ _ => some (osc, oscStart)
  | _ => none

omit [DecidableEq O] in
theorem Control.place_of_round {control : Control O} {written : Bool}
    (h : control.round = some (osc, dataStart, way, written)) :
    control.place = some (osc, dataStart) := by
  cases control <;> simp_all [round, place]

def SharedLabel.caller : SharedLabel C O → C
  | activate cpu _ | preloadSingleOSC cpu _ | getLRUWay cpu _ _ _ | noWay cpu
  | prefetchDataToWay cpu _ | setDataStart cpu _ _ _ | setDataEnd cpu _ _ _ | setOsc cpu _ _ _
  | preloaded cpu | lookupAndEvictOSC cpu _ | evictCacheWay cpu _ | freeOSC cpu _ => cpu

theorem SharedStep.cpus_of_ne (h : SharedStep layout m l m') (hne : cpu ≠ l.caller) :
    m'.cpus cpu = m.cpus cpu := by
  cases h <;> exact Function.update_of_ne hne ..

/-- A preload begins at the start of its component, and goes on when its part is on record. -/
theorem SharedStep.place (h : SharedStep layout m l m')
    (hplace : (m'.cpus l.caller).control.place = some (osc, dataStart)) :
    (m.cpus l.caller).control.place = some (osc, dataStart) ∨
      l = .preloadSingleOSC l.caller osc ∧ dataStart = layout.getOSCStart osc ∨
      ∃ oscStart way, l = .setOsc l.caller osc oscStart way ∧
        (m.cpus l.caller).control.round = some (osc, oscStart, way, true) ∧
        dataStart = nextStart (preloadEnd layout oscStart (layout.getOSCEnd osc))
          (layout.getOSCEnd osc) := by
  cases h with
  | activate hcontrol | noWay hcontrol | skipPreload hcontrol | prefetchDataToWay hcontrol
  | setDataStart hcontrol | setDataEnd hcontrol | preloaded hcontrol | lookupAndEvictOSC hcontrol
  | evictCacheWay hcontrol | freeOSC hcontrol | getLRUWay hcontrol =>
    simp_all [SharedLabel.caller, Control.place]
  | @preloadSingleOSC cpu osc' hcontrol _ =>
    obtain ⟨rfl, rfl⟩ : osc' = osc ∧ layout.getOSCStart osc' = dataStart := by
      simpa [SharedLabel.caller, Control.place] using hplace
    exact .inr (.inl ⟨rfl, rfl⟩)
  | @setOsc cpu osc' oscStart skipPreload way hcontrol =>
    obtain ⟨rfl, rfl⟩ : osc' = osc ∧ nextStart (preloadEnd layout oscStart
        (layout.getOSCEnd osc')) (layout.getOSCEnd osc') = dataStart := by
      simpa [SharedLabel.caller, Control.place] using hplace
    exact .inr (.inr ⟨oscStart, way, rfl, by simp [SharedLabel.caller, hcontrol, Control.round], rfl⟩)

/-- The other CPUs do nothing to a way that a part is on record in. -/
theorem RecordedFor.step_of_other (hlayout : layout.Disjoint) (h : Exclusive layout m)
    (hrec : RecordedFor layout m.cache (m.cpus cpu) osc dataStart way)
    (hstep : SharedStep layout m l m') (hl : l.caller ≠ cpu) :
    RecordedFor layout m'.cache (m'.cpus cpu) osc dataStart way ∧
      (m'.cache.mCacheWays way).record = (m.cache.mCacheWays way).record ∧
      m'.cache.lastOperation way = m.cache.lastOperation way ∧
      (∀ other osc' a, l ≠ .getLRUWay other osc' a way) ∧
      (∀ other, l ≠ .prefetchDataToWay other way) ∧
      ∀ other, l = .evictCacheWay other way → m'.cache = m.cache := by
  refine ⟨hrec.step hlayout h hstep ?_, hrec.holds.record_eq hlayout h hstep ?_ ?_ ?_,
    hrec.holds.operation_eq hlayout h hstep ?_ ?_, fun other osc' a => ?_, fun other => ?_,
    fun other => ?_⟩ <;> rintro rfl
  case refine_7 => exact hl (hrec.holds.handedOut hlayout h hstep).1
  case refine_8 =>
    cases hstep with
    | skipPreload hcontrol | prefetchDataToWay hcontrol =>
      exact hl (hrec.holds.prefetcher hlayout h hcontrol)
  case refine_9 =>
    cases hstep with
    | evictCacheWay hcontrol => exact if_neg (hrec.holds.not_contains hlayout h hcontrol hl)
  all_goals exact hl rfl

/-- The number of ways and the locks stay as they are. -/
theorem SharedStep.locks (h : SharedStep layout m l m') :
    m'.cache.mCacheWayCount = m.cache.mCacheWayCount ∧ ∀ way,
      (m'.cache.mCacheWays way).permanentLocked = (m.cache.mCacheWays way).permanentLocked := by
  have hmodify : ∀ (v : Nat) (f : CacheWayState O → CacheWayState O),
      (∀ w, (f w).permanentLocked = w.permanentLocked) → ∀ way,
      ((m.cache.modifyWay v f).mCacheWays way).permanentLocked =
        (m.cache.mCacheWays way).permanentLocked := by
    intro v f hf way
    rcases eq_or_ne way v with rfl | hne
    · rw [modifyWay_self, hf]
    · rw [modifyWay_of_ne hne]
  cases h with
  | activate | preloadSingleOSC | skipPreload | prefetchDataToWay | preloaded
  | lookupAndEvictOSC => exact ⟨rfl, fun _ => rfl⟩
  | @getLRUWay cpu osc oscStart skipPreload v c hcontrol hlt hcall =>
    have hhands := getLRUWay_some hcall
    refine ⟨hhands.count, fun way => ?_⟩
    rcases eq_or_ne way v with rfl | hne
    · exact hhands.locked
    · exact (SameUse.of_unaged (hhands.other way hne).1).permanentLocked
  | @noWay cpu osc oscStart skipPreload c hcontrol hlt hcall =>
    have hages := getLRUWay_none hcall
    exact ⟨hages.count, fun way => (SameUse.of_unaged (hages.way way)).permanentLocked⟩
  | setDataStart => exact ⟨rfl, hmodify _ (fun w => { w with dataStart := _ }) fun _ => rfl⟩
  | setDataEnd => exact ⟨rfl, hmodify _ (fun w => { w with dataEnd := _ }) fun _ => rfl⟩
  | setOsc => exact ⟨rfl, hmodify _ (fun w => { w with osc := _ }) fun _ => rfl⟩
  | evictCacheWay =>
    exact ⟨evictOne_count .., fun way => (SameUse.evictOne layout _ m.cache _ way).permanentLocked⟩
  | freeOSC => exact ⟨freeOSC_count .., fun way => (freeOSC_way layout m.cache _ way).1⟩

/-! ## The parts that a preload has done -/

/-- A preload that has come to an address has the parts in front of it on record. -/
def Loads (layout : MemoryLayout O) (c : GenericCacheManagement O) (x : CpuState O) (osc : O)
    (oscStart : Nat) : Prop :=
  ∃ done, chunks layout (layout.getOSCStart osc) (layout.getOSCEnd osc) =
      done ++ chunks layout oscStart (layout.getOSCEnd osc) ∧
    ∀ chunk ∈ done, ∃ way, RecordedFor layout c x osc chunk.1 way

/-- All parts of the component are on record. -/
def Loaded (layout : MemoryLayout O) (c : GenericCacheManagement O) (x : CpuState O) (osc : O) :
    Prop :=
  ∀ chunk ∈ chunks layout (layout.getOSCStart osc) (layout.getOSCEnd osc),
    ∃ way, RecordedFor layout c x osc chunk.1 way

omit [DecidableEq O] in
theorem Loads.mono (h : Loads layout c x osc oscStart)
    (hkeeps : ∀ dataStart way, RecordedFor layout c x osc dataStart way →
      RecordedFor layout c' x' osc dataStart way) : Loads layout c' x' osc oscStart := by
  obtain ⟨done, hdone, hrec⟩ := h
  refine ⟨done, hdone, fun chunk hchunk => ?_⟩
  obtain ⟨way, hway⟩ := hrec chunk hchunk
  exact ⟨way, hkeeps _ _ hway⟩

omit [DecidableEq O] in
theorem Loads.start : Loads layout c x osc (layout.getOSCStart osc) :=
  ⟨[], rfl, by simp⟩

omit [DecidableEq O] in
theorem Loads.next (h : Loads layout c x osc oscStart) (hlt : oscStart < layout.getOSCEnd osc)
    (hrec : RecordedFor layout c x osc oscStart way) :
    Loads layout c x osc (nextStart (preloadEnd layout oscStart (layout.getOSCEnd osc))
      (layout.getOSCEnd osc)) := by
  obtain ⟨done, hdone, hall⟩ := h
  rw [chunks_of_lt hlt] at hdone
  refine ⟨done ++ [(oscStart, preloadEnd layout oscStart (layout.getOSCEnd osc))], by simp [hdone],
    fun chunk hchunk => ?_⟩
  rcases List.mem_append.mp hchunk with hchunk | hchunk
  · exact hall chunk hchunk
  · obtain rfl := List.mem_singleton.mp hchunk
    exact ⟨way, hrec⟩

omit [DecidableEq O] in
theorem Loads.loaded (h : Loads layout c x osc oscStart) (hdone : ¬ oscStart < layout.getOSCEnd osc) :
    Loaded layout c x osc := by
  obtain ⟨done, hall, hrec⟩ := h
  rw [chunks_of_not_lt hdone, List.append_nil] at hall
  rwa [Loaded, hall]

omit [DecidableEq O] in
/-- The address that a preload has come to is the start of a part. -/
theorem Loads.mem_chunks (h : Loads layout c x osc oscStart) (hlt : oscStart < layout.getOSCEnd osc) :
    oscStart ∈ (chunks layout (layout.getOSCStart osc) (layout.getOSCEnd osc)).map Prod.fst := by
  obtain ⟨done, hall, -⟩ := h
  rw [hall, chunks_of_lt hlt]
  simp

/-! ## The ways in use -/

/-- The way is used for a part of a component of the CPU. It is on record there, or the round for it
is under way. -/
def UsedFor (layout : MemoryLayout O) (c : GenericCacheManagement O) (x : CpuState O) (osc : O)
    (dataStart way : Nat) : Prop :=
  RecordedFor layout c x osc dataStart way ∨
    ∃ written, x.control.round = some (osc, dataStart, way, written)

/-- The invariant of the ways in use. Preloads have the parts in front of them on record, and every
way in use is used for a part of a component that a CPU has preloaded. -/
structure UseInv (layout : MemoryLayout O) (m : SharedState C O) : Prop where
  exclusive : Exclusive layout m
  loads : ∀ cpu osc oscStart, (m.cpus cpu).control.place = some (osc, oscStart) →
    Loads layout m.cache (m.cpus cpu) osc oscStart
  used : ∀ way, (m.cache.mCacheWays way).inUse = true → ∃ cpu osc dataStart,
    dataStart ∈ (chunks layout (layout.getOSCStart osc) (layout.getOSCEnd osc)).map Prod.fst ∧
      UsedFor layout m.cache (m.cpus cpu) osc dataStart way

omit [DecidableEq C] [DecidableEq O] in
theorem UsedFor.holds (h : Exclusive layout m) (hused : UsedFor layout m.cache (m.cpus cpu) osc
    dataStart way) : Holds layout m.cache (m.cpus cpu) osc dataStart way := by
  rcases hused with hrec | ⟨written, hround⟩
  · exact hrec.holds
  · exact ((h.cpu cpu).holds osc dataStart way written hround).1

omit [DecidableEq O] in
theorem inUse_modifyWay {f : CacheWayState O → CacheWayState O} {v : Nat}
    (hf : (f (c.mCacheWays v)).inUse = (c.mCacheWays v).inUse) :
    ((c.modifyWay v f).mCacheWays way).inUse = (c.mCacheWays way).inUse := by
  rcases eq_or_ne way v with rfl | hne
  · rwa [modifyWay_self]
  · rw [modifyWay_of_ne hne]

/-- `freeOSC` takes the ways that record the component out of use. -/
theorem freeOSC_inUse (hcontains : c.contains layout osc way) (hlt : way < c.mCacheWayCount) :
    ((c.freeOSC layout osc).mCacheWays way).inUse = false := by
  rw [GenericCacheManagement.freeOSC, (freeLoop_eq layout osc _ _).2.2 way,
    if_pos ⟨List.mem_range.mpr hlt, hcontains⟩]

theorem inUse_of_freeOSC (h : ((c.freeOSC layout osc).mCacheWays way).inUse = true) :
    (c.mCacheWays way).inUse = true := by
  rw [GenericCacheManagement.freeOSC, (freeLoop_eq layout osc _ _).2.2 way] at h
  split at h
  · cases h
  · exact h

/-- A way comes into use when it is handed out. -/
theorem SharedStep.inUse (h : SharedStep layout m l m')
    (hway : (m'.cache.mCacheWays way).inUse = true) :
    (m.cache.mCacheWays way).inUse = true ∨
      ∃ osc oscStart, l = .getLRUWay l.caller osc oscStart way := by
  cases h with
  | activate | preloadSingleOSC | skipPreload | prefetchDataToWay | preloaded | lookupAndEvictOSC =>
    exact .inl hway
  | @getLRUWay cpu osc oscStart skipPreload way' c hcontrol hlt hcall =>
    rcases eq_or_ne way way' with rfl | hne
    · exact .inr ⟨osc, oscStart, rfl⟩
    · have hsame := SameUse.of_unaged ((getLRUWay_some hcall).other way hne).1
      exact .inl (hsame.inUse.symm.trans hway)
  | @noWay cpu osc oscStart skipPreload c hcontrol hlt hcall =>
    have hsame := SameUse.of_unaged ((getLRUWay_none hcall).way way)
    exact .inl (hsame.inUse.symm.trans hway)
  | @setDataStart cpu osc oscStart skipPreload way' hcontrol =>
    exact .inl ((inUse_modifyWay (f := fun w => { w with dataStart := oscStart }) rfl).symm.trans
      hway)
  | @setDataEnd cpu osc oscStart skipPreload way' hcontrol =>
    have hsame : ∀ dataEnd, ((m.cache.setDataEnd way' dataEnd).mCacheWays way).inUse =
        (m.cache.mCacheWays way).inUse := fun dataEnd =>
      inUse_modifyWay (f := fun w => { w with dataEnd }) rfl
    exact .inl ((hsame _).symm.trans hway)
  | @setOsc cpu osc oscStart skipPreload way' hcontrol =>
    exact .inl ((inUse_modifyWay (f := fun w => { w with osc := some osc }) rfl).symm.trans hway)
  | @evictCacheWay cpu osc way' hcontrol _ =>
    exact .inl ((SameUse.evictOne layout osc m.cache way' way).inUse.symm.trans hway)
  | @freeOSC cpu osc way' hcontrol _ => exact .inl (inUse_of_freeOSC hway)

/-- A round ends when its part is on record. -/
theorem SharedStep.round (h : SharedStep layout m l m') {written : Bool}
    (hround : (m.cpus l.caller).control.round = some (osc, dataStart, way, written)) :
    (∃ written', (m'.cpus l.caller).control.round = some (osc, dataStart, way, written')) ∨
      l = .setOsc l.caller osc dataStart way ∧ written = true := by
  cases h with
  | activate hcontrol | noWay hcontrol | preloadSingleOSC hcontrol | preloaded hcontrol
  | lookupAndEvictOSC hcontrol | evictCacheWay hcontrol | freeOSC hcontrol | getLRUWay hcontrol =>
    simp [SharedLabel.caller, hcontrol, Control.round] at hround
  | skipPreload hcontrol | prefetchDataToWay hcontrol | setDataStart hcontrol
  | setDataEnd hcontrol =>
    simp_all [SharedLabel.caller, Control.round]
  | setOsc hcontrol => simp_all [SharedLabel.caller, Control.round]

theorem UsedFor.step (hlayout : layout.Disjoint) (h : Exclusive layout m)
    (hused : UsedFor layout m.cache (m.cpus cpu) osc dataStart way)
    (hstep : SharedStep layout m l m') (hl : l ≠ .freeOSC cpu osc) :
    UsedFor layout m'.cache (m'.cpus cpu) osc dataStart way := by
  rcases hused with hrec | ⟨written, hround⟩
  · exact .inl (hrec.step hlayout h hstep hl)
  rcases eq_or_ne cpu l.caller with rfl | hne
  · rcases hstep.round hround with hround' | ⟨hsetOsc, rfl⟩
    · exact .inr hround'
    · -- the part is on record now
      obtain ⟨hholds, -⟩ := (h.cpu l.caller).holds osc dataStart way true hround
      have hholds' := hholds.step hlayout h hstep hl
      have hstart : (m.cache.mCacheWays way).dataStart = dataStart := by
        refine hholds.dataStart.resolve_right fun hzero => ?_
        rw [hround] at hzero
        simp at hzero
      rw [hsetOsc] at hstep
      refine .inl ⟨hholds'.toHasWay, ?_, ?_⟩ <;> cases hstep <;>
        simp [setOsc, hstart]
  · rw [hstep.cpus_of_ne hne]
    exact .inr ⟨written, hround⟩

/-- A step keeps the invariant. -/
theorem UseInv.step (hlayout : layout.Disjoint) (h : UseInv layout m)
    (hstep : SharedStep layout m l m') : UseInv layout m' := by
  have hinv := h.exclusive.step hlayout hstep
  refine ⟨hinv, fun cpu osc oscStart hplace => ?_, fun way hway => ?_⟩
  · have hl : l ≠ .freeOSC cpu osc := by
      rintro rfl
      cases hstep
      simp [Control.place] at hplace
    have hkeeps := fun dataStart way (hrec : RecordedFor layout m.cache (m.cpus cpu) osc dataStart
      way) => hrec.step hlayout h.exclusive hstep hl
    rcases eq_or_ne cpu l.caller with rfl | hne
    · rcases hstep.place hplace with hplace | ⟨-, rfl⟩ | ⟨oscStart, way, hsetOsc, hround, rfl⟩
      · exact (h.loads _ osc _ hplace).mono hkeeps
      · exact .start
      · have hused := UsedFor.step hlayout h.exclusive (.inr ⟨true, hround⟩) hstep hl
        rcases hused with hrec | ⟨written, hround'⟩
        · have hloads := (h.loads _ osc oscStart (Control.place_of_round hround)).mono hkeeps
          exact hloads.next hrec.lt_end hrec
        · -- the round is over
          generalize l.caller = cpu at hsetOsc hround'
          subst hsetOsc
          cases hstep
          simp [Control.round] at hround'
    · rw [hstep.cpus_of_ne hne] at hplace
      exact (h.loads cpu osc oscStart hplace).mono hkeeps
  · rcases hstep.inUse hway with hold | ⟨osc, oscStart, hhands⟩
    · obtain ⟨cpu, osc, dataStart, hmem, hused⟩ := h.used way hold
      refine ⟨cpu, osc, dataStart, hmem, hused.step hlayout h.exclusive hstep ?_⟩
      rintro rfl
      cases hstep with
      | @freeOSC _ _ way' hcontrol _ =>
        rcases hused with hrec | ⟨written, hround⟩
        · have hcontains : m.cache.contains layout osc way :=
            ⟨hrec.dataStart ▸ hrec.start_le, hrec.dataStart ▸ hrec.lt_end, hrec.osc.symm⟩
          have hfree := freeOSC_inUse hcontains hrec.lt
          exact absurd hway (by simp [hfree])
        · simp [hcontrol, Control.round] at hround
    · rw [hhands] at hstep
      have hplace : (m.cpus l.caller).control.place = some (osc, oscStart) := by
        cases hstep with
        | getLRUWay hcontrol => rw [hcontrol]; rfl
      have hround : (m'.cpus l.caller).control.round = some (osc, oscStart, way, false) := by
        cases hstep
        simp [Control.round]
      have hlt := ((hinv.cpu l.caller).holds osc oscStart way false hround).1.lt_end
      exact ⟨l.caller, osc, oscStart, (h.loads _ osc oscStart hplace).mem_chunks hlt,
        .inr ⟨false, hround⟩⟩

omit [DecidableEq C] [DecidableEq O] in
theorem UseInv.initial (hboot : Booted layout c) :
    UseInv layout (SharedState.initial (C := C) c) := by
  refine ⟨.initial hboot, fun cpu osc oscStart hplace => ?_, fun way hway => ?_⟩
  · cases hplace
  · have hfree := (hboot.unused way).inUse
    rw [SharedState.initial, hfree] at hway
    cases hway

/-! ## What has been preloaded -/

/-- What a CPU has preloaded is on record, but for the component that it is preloading. -/
def AllLoaded (layout : MemoryLayout O) (m : SharedState C O) : Prop :=
  ∀ cpu, ∀ osc ∈ (m.cpus cpu).preloaded, (m.cpus cpu).control ≠ .noWay →
    (∀ a, (m.cpus cpu).control.place ≠ some (osc, a)) → Loaded layout m.cache (m.cpus cpu) osc

omit [DecidableEq O] in
theorem Loaded.mono (h : Loaded layout c x osc)
    (hkeeps : ∀ dataStart way, RecordedFor layout c x osc dataStart way →
      RecordedFor layout c' x' osc dataStart way) : Loaded layout c' x' osc := by
  intro chunk hchunk
  obtain ⟨way, hway⟩ := h chunk hchunk
  exact ⟨way, hkeeps _ _ hway⟩

/-- A component that is not being preloaded after a step was not being preloaded before it, or its
preload has come to the end. -/
theorem SharedStep.allLoaded (h : SharedStep layout m l m')
    (hosc : osc ∈ (m'.cpus l.caller).preloaded) (hnoWay : (m'.cpus l.caller).control ≠ .noWay)
    (hplace : ∀ a, (m'.cpus l.caller).control.place ≠ some (osc, a)) :
    l ≠ .freeOSC l.caller osc ∧
      (osc ∈ (m.cpus l.caller).preloaded ∧ (m.cpus l.caller).control ≠ .noWay ∧
          (∀ a, (m.cpus l.caller).control.place ≠ some (osc, a)) ∨
        ∃ a, (m.cpus l.caller).control.place = some (osc, a) ∧ ¬ a < layout.getOSCEnd osc) := by
  cases h with
  | noWay => simp [SharedLabel.caller] at hnoWay
  | @preloaded cpu osc' oscStart skipPreload hcontrol hend =>
    refine ⟨by simp, ?_⟩
    rcases eq_or_ne osc osc' with rfl | hne
    · exact .inr ⟨oscStart, by simp [SharedLabel.caller, hcontrol, Control.place], hend⟩
    · refine .inl ⟨?_, by simp [SharedLabel.caller, hcontrol], fun a => ?_⟩
      · simpa [SharedLabel.caller] using hosc
      · simp [SharedLabel.caller, hcontrol, Control.place, hne.symm]
  | @preloadSingleOSC cpu osc' hcontrol _ =>
    have hne : osc ≠ osc' := by
      simpa [SharedLabel.caller, Control.place, eq_comm] using hplace
    simp_all [SharedLabel.caller, Control.place]
  | @freeOSC cpu osc' way hcontrol _ =>
    have hkept : osc ∈ (m.cpus cpu).preloaded ∧ osc ≠ osc' := by
      simpa [SharedLabel.caller] using hosc
    simp [SharedLabel.caller, hcontrol, Control.place, hkept, hkept.2.symm]
  | activate hcontrol | getLRUWay hcontrol | skipPreload hcontrol | prefetchDataToWay hcontrol
  | setDataStart hcontrol | setDataEnd hcontrol | setOsc hcontrol | lookupAndEvictOSC hcontrol
  | evictCacheWay hcontrol =>
    simp_all [SharedLabel.caller, Control.place]

theorem AllLoaded.step (hlayout : layout.Disjoint) (h : AllLoaded layout m) (huse : UseInv layout m)
    (hstep : SharedStep layout m l m') : AllLoaded layout m' := by
  intro cpu osc hosc hnoWay hplace
  rcases eq_or_ne cpu l.caller with rfl | hne
  · obtain ⟨hl, hcases⟩ := hstep.allLoaded hosc hnoWay hplace
    suffices hloaded : Loaded layout m.cache (m.cpus l.caller) osc from
      hloaded.mono fun _ _ hrec => hrec.step hlayout huse.exclusive hstep hl
    rcases hcases with ⟨hosc, hnoWay, hplace⟩ | ⟨a, hplace, hend⟩
    · exact h l.caller osc hosc hnoWay hplace
    · exact (huse.loads l.caller osc a hplace).loaded hend
  · rw [hstep.cpus_of_ne hne] at hosc hnoWay hplace
    have hl : l ≠ .freeOSC cpu osc := by
      rintro rfl
      exact hne rfl
    exact (h cpu osc hosc hnoWay hplace).mono fun _ _ hrec =>
      hrec.step hlayout huse.exclusive hstep hl

omit [DecidableEq C] [DecidableEq O] in
theorem AllLoaded.initial : AllLoaded layout (SharedState.initial (C := C) c) :=
  fun _ _ hosc => by cases hosc

/-- Over every run the ways in use are used for parts, and what has been preloaded is on record. -/
theorem useInv_of_run (hlayout : layout.Disjoint) (hboot : Booted layout c)
    {ls : List (SharedLabel C O)} (hrun : Run (SharedStep layout) (.initial c) ls m) :
    UseInv layout m ∧ AllLoaded layout m :=
  hrun.invariant (motive := fun m => UseInv layout m ∧ AllLoaded layout m)
    ⟨.initial hboot, .initial⟩ fun h hstep => ⟨h.1.step hlayout hstep, h.2.step hlayout h.1 hstep⟩

/-! ## Finding a way -/

/-- The ways that the components share. -/
def unlockedWays (c : GenericCacheManagement O) : Finset Nat :=
  (Finset.range c.mCacheWayCount).filter fun way => (c.mCacheWays way).permanentLocked = false

/-- The parts of the components. -/
def parts (layout : MemoryLayout O) (oscs : List O) : Finset (O × Nat) :=
  (oscs.flatMap fun osc => (chunks layout (layout.getOSCStart osc) (layout.getOSCEnd osc)).map
    fun chunk => (osc, chunk.1)).toFinset

theorem mem_parts {oscs : List O} : (osc, dataStart) ∈ parts layout oscs ↔ osc ∈ oscs ∧
    dataStart ∈ (chunks layout (layout.getOSCStart osc) (layout.getOSCEnd osc)).map Prod.fst := by
  simp only [parts, List.mem_toFinset, List.mem_flatMap, List.mem_map, Prod.mk.injEq]
  constructor
  · rintro ⟨osc', hosc, chunk, hchunk, rfl, rfl⟩
    exact ⟨hosc, chunk, hchunk, rfl⟩
  · rintro ⟨hosc, chunk, hchunk, rfl⟩
    exact ⟨osc, hosc, chunk, hchunk, rfl, rfl⟩

omit [DecidableEq O] in
/-- No way is handed out only if all of them are locked or in use. -/
theorem inUse_of_noWay (h : c.getLRUWay dataStart = (none, c')) (hlt : way < c.mCacheWayCount)
    (hunlocked : (c.mCacheWays way).permanentLocked = false) :
    (c.mCacheWays way).inUse = true := by
  have hnone : (lruLoop (List.range c.mCacheWayCount) c 0 none).1 = none := by
    rw [getLRUWay] at h
    split at h
    · cases h
    · split at h
      · next hloop => rw [hloop]
      · cases h
  have hfull : ∀ w ∈ List.range c.mCacheWayCount, ¬ c.Empty w := by
    intro w hw hempty
    rw [lruLoop_empty ⟨w, hw, hempty⟩] at hnone
    simpa [hempty] using List.find?_eq_none.mp hnone w hw
  rcases lruLoop_max List.pairwise_lt_range hfull 0 none with ⟨b, -, hb, -⟩ | ⟨-, hless⟩
  · rw [hnone] at hb
    cases hb
  · refine Bool.not_eq_false _ ▸ fun hidle => ?_
    exact Nat.not_lt_zero _ (hless way (List.mem_range.mpr hlt) ⟨hunlocked, hidle⟩)

omit [DecidableEq C] [DecidableEq O] in
theorem findWay_of_noWay (h : c.getLRUWay dataStart = (none, c')) : c.findWay dataStart = none := by
  rw [getLRUWay] at h
  split at h
  · cases h
  · assumption

omit [DecidableEq C] [DecidableEq O] in
/-- A part is used in one way. -/
theorem UsedFor.way_unique (hlayout : layout.Disjoint) (h : Exclusive layout m) {other : C} {v : Nat}
    (hway : UsedFor layout m.cache (m.cpus cpu) osc dataStart way)
    (hv : UsedFor layout m.cache (m.cpus other) osc dataStart v) : v = way := by
  have hholds := hway.holds h
  have hpos : 0 < dataStart := (hlayout.start_pos osc).trans_le hholds.start_le
  obtain rfl : other = cpu := h.disjoint other cpu osc
    ((h.cpu other).active osc (hv.holds h).preloaded) ((h.cpu cpu).active osc hholds.preloaded)
  rcases hway with hrec | ⟨written, hround⟩ <;> rcases hv with hrec' | ⟨written', hround'⟩
  · exact h.unique way hrec.lt v hrec'.lt (by rw [hrec.dataStart]; exact hpos.ne')
      (hrec'.dataStart.trans hrec.dataStart.symm)
  · exact (((h.cpu other).holds osc dataStart v written' hround').2 way hrec.lt hrec.dataStart).symm
  · exact ((h.cpu other).holds osc dataStart way written hround).2 v hrec'.lt hrec'.dataStart
  · rw [hround] at hround'
    simp only [Option.some.injEq, Prod.mk.injEq] at hround'
    exact hround'.2.2.1.symm

/-- The ways in use. -/
def waysInUse (c : GenericCacheManagement O) : Finset Nat :=
  (Finset.range c.mCacheWayCount).filter fun way => (c.mCacheWays way).inUse = true

omit [DecidableEq C] [DecidableEq O] in
/-- Ways that are used for different parts are not more than the parts. -/
theorem card_le_of_usedFor (hlayout : layout.Disjoint) (h : Exclusive layout m) {ways : Finset Nat}
    {all : Finset (O × Nat)} (hused : ∀ way ∈ ways, ∃ part ∈ all, ∃ cpu,
      UsedFor layout m.cache (m.cpus cpu) part.1 part.2 way) : ways.card ≤ all.card := by
  rcases ways.eq_empty_or_nonempty with rfl | ⟨way₀, hway₀⟩
  · simp
  have : Nonempty (O × Nat) := ⟨(hused way₀ hway₀).choose⟩
  choose! part hpart hcpu using hused
  refine Finset.card_le_card_of_injOn part hpart fun way hway v hv heq => ?_
  obtain ⟨cpu₁, hcpu₁⟩ := hcpu way hway
  obtain ⟨cpu₂, hcpu₂⟩ := hcpu v hv
  rw [← heq] at hcpu₂
  exact (hcpu₁.way_unique hlayout h hcpu₂).symm

omit [DecidableEq C] in
theorem UseInv.used_part (h : UseInv layout m)
    (hway : (m.cache.mCacheWays way).inUse = true) : ∃ cpu, ∃ part ∈ parts layout
      (m.cpus cpu).active, UsedFor layout m.cache (m.cpus cpu) part.1 part.2 way := by
  obtain ⟨cpu, osc, dataStart, hstart, hused⟩ := h.used way hway
  have hosc := (h.exclusive.cpu cpu).active osc (hused.holds h.exclusive).preloaded
  exact ⟨cpu, (osc, dataStart), mem_parts.mpr ⟨hosc, hstart⟩, hused⟩

omit [DecidableEq C] in
/-- No more ways are in use than the active components have parts. -/
theorem UseInv.card_waysInUse [Fintype C] (hlayout : layout.Disjoint) (h : UseInv layout m) :
    (waysInUse m.cache).card ≤ ∑ cpu, (parts layout (m.cpus cpu).active).card := by
  have hcard : (waysInUse m.cache).card ≤
      (Finset.univ.biUnion fun cpu => parts layout (m.cpus cpu).active).card := by
    refine card_le_of_usedFor hlayout h.exclusive fun way hway => ?_
    obtain ⟨cpu, part, hpart, hused⟩ := h.used_part (Finset.mem_filter.mp hway).2
    exact ⟨part, Finset.mem_biUnion.mpr ⟨cpu, Finset.mem_univ _, hpart⟩, cpu, hused⟩
  exact hcard.trans Finset.card_biUnion_le

omit [DecidableEq C] in
/-- A preload finds a way if there are as many unlocked ways as the active components have parts. -/
theorem UseInv.exists_way [Fintype C] (hlayout : layout.Disjoint) (h : UseInv layout m)
    {skipPreload : Bool} (hcontrol : (m.cpus cpu).control = .preload osc oscStart skipPreload)
    (hlt : oscStart < layout.getOSCEnd osc)
    (hroom : ∑ cpu, (parts layout (m.cpus cpu).active).card ≤ m.cache.unlockedWays.card) :
    ∃ way c, m.cache.getLRUWay oscStart = (some way, c) := by
  rcases hcall : m.cache.getLRUWay oscStart with ⟨_ | way, c⟩
  swap
  · exact ⟨way, c, rfl⟩
  exfalso
  set all := Finset.univ.biUnion fun cpu => parts layout (m.cpus cpu).active with hall
  obtain ⟨hpreloaded, hle⟩ := (h.exclusive.cpu cpu).preload osc oscStart skipPreload hcontrol
  have hplace : (m.cpus cpu).control.place = some (osc, oscStart) := by rw [hcontrol]; rfl
  have hmem : (osc, oscStart) ∈ all := by
    refine Finset.mem_biUnion.mpr ⟨cpu, Finset.mem_univ _, mem_parts.mpr ⟨?_, ?_⟩⟩
    · exact (h.exclusive.cpu cpu).active osc hpreloaded
    · exact (h.loads cpu osc oscStart hplace).mem_chunks hlt
  -- every unlocked way is used for a part, and none for the one that is looked for
  have hcard : m.cache.unlockedWays.card ≤ (all.erase (osc, oscStart)).card := by
    refine card_le_of_usedFor hlayout h.exclusive fun way hway => ?_
    obtain ⟨hway, hunlocked⟩ := Finset.mem_filter.mp hway
    have hinUse := inUse_of_noWay hcall (Finset.mem_range.mp hway) hunlocked
    obtain ⟨other, part, hpart, hused⟩ := h.used_part hinUse
    refine ⟨part, Finset.mem_erase.mpr ⟨?_, Finset.mem_biUnion.mpr ⟨other, Finset.mem_univ _,
      hpart⟩⟩, other, hused⟩
    rintro rfl
    obtain rfl := h.exclusive.disjoint other cpu osc (mem_parts.mp hpart).1
      ((h.exclusive.cpu cpu).active osc hpreloaded)
    rcases hused with hrec | ⟨written, hround⟩
    · exact findWay_eq_none (findWay_of_noWay hcall) way hrec.lt hrec.dataStart
    · rw [hcontrol] at hround
      cases hround
  have hless : (all.erase (osc, oscStart)).card < all.card := Finset.card_erase_lt_of_mem hmem
  have hsum : all.card ≤ ∑ cpu, (parts layout (m.cpus cpu).active).card := Finset.card_biUnion_le
  omega

end GenericCacheManagement
end CyPhOS
