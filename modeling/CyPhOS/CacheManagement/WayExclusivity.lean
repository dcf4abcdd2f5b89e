import CyPhOS.CacheManagement.CacheRecord

/-! # Ways belong to one CPU at a time

The CPUs share the ways. `SharedStep` interleaves their preloads and evictions: the critical sections
of `getLRUWay` and `lookupAndEvictOSC` are one step each, and so is every write that
`preloadSingleOSC` makes to the record without the lock. The scheduler is left open but for what it
promises: no component is active on two CPUs, and a component that has been preloaded stays active
until it has been evicted.

`Holds` says that a CPU holds a way for a part of one of its components, `Exclusive` is the invariant
of all runs, and `wayExclusivity` what it means for the ways.
-/

namespace CyPhOS

open Transition

/-- The components take up disjoint ranges, and none starts at 0. -/
structure MemoryLayout.Disjoint {O : Type} (layout : MemoryLayout O) : Prop where
  start_pos : ∀ osc, 0 < layout.getOSCStart osc
  eq_of_mem : ∀ {osc osc' : O} {a : Nat}, layout.getOSCStart osc ≤ a → a < layout.getOSCEnd osc →
    layout.getOSCStart osc' ≤ a → a < layout.getOSCEnd osc' → osc = osc'

namespace GenericCacheManagement

/-- Where a CPU is in the cache management. The stages of a round of `preloadSingleOSC` carry its
component, address, `skipPreload` and way. -/
inductive Control (O : Type)
  | idle
  | preload (osc : O) (oscStart : Nat) (skipPreload : Bool)
  | handedOut (osc : O) (oscStart : Nat) (skipPreload : Bool) (way : Nat)
  | prefetched (osc : O) (oscStart : Nat) (skipPreload : Bool) (way : Nat)
  | startWritten (osc : O) (oscStart : Nat) (skipPreload : Bool) (way : Nat)
  | endWritten (osc : O) (oscStart : Nat) (skipPreload : Bool) (way : Nat)
  | evict (osc : O) (way : Nat)
  | noWay

/-- The round that is under way: its component, address and way, and whether the address is on
record already. -/
def Control.round {O : Type} : Control O → Option (O × Nat × Nat × Bool)
  | handedOut osc oscStart _ way | prefetched osc oscStart _ way => some (osc, oscStart, way, false)
  | startWritten osc oscStart _ way | endWritten osc oscStart _ way =>
    some (osc, oscStart, way, true)
  | _ => none

/-- The active components of a CPU, those that it has preloaded and not evicted since, and where it
is. -/
structure CpuState (O : Type) where
  active : List O
  preloaded : List O
  control : Control O

structure SharedState (C O : Type) where
  cache : GenericCacheManagement O
  cpus : C → CpuState O

inductive SharedLabel (C O : Type)
  | activate (cpu : C) (oscs : List O)
  | preloadSingleOSC (cpu : C) (osc : O)
  | getLRUWay (cpu : C) (osc : O) (dataStart way : Nat)
  | noWay (cpu : C)
  | prefetchDataToWay (cpu : C) (way : Nat)
  | setDataStart (cpu : C) (osc : O) (dataStart way : Nat)
  | setDataEnd (cpu : C) (osc : O) (dataStart way : Nat)
  | setOsc (cpu : C) (osc : O) (dataStart way : Nat)
  | preloaded (cpu : C)
  | lookupAndEvictOSC (cpu : C) (osc : O)
  | evictCacheWay (cpu : C) (way : Nat)
  | freeOSC (cpu : C) (osc : O)

variable {C O : Type} [DecidableEq C] [DecidableEq O]

/-- The CPU moves on, and the cache management is left as given. -/
def SharedState.set (m : SharedState C O) (c : GenericCacheManagement O) (cpu : C)
    (x : CpuState O) : SharedState C O :=
  ⟨c, Function.update m.cpus cpu x⟩

/-- The CPU is somewhere else and has the same components. -/
def SharedState.goto (m : SharedState C O) (c : GenericCacheManagement O) (cpu : C)
    (control : Control O) : SharedState C O :=
  m.set c cpu { m.cpus cpu with control }

section
variable {m : SharedState C O} {c : GenericCacheManagement O} {cpu other : C} {x : CpuState O}
  {control : Control O}

omit [DecidableEq O]

@[simp] theorem SharedState.set_cache : (m.set c cpu x).cache = c := rfl

@[simp] theorem SharedState.set_cpus_self : (m.set c cpu x).cpus cpu = x :=
  Function.update_self ..

theorem SharedState.set_cpus_of_ne (h : other ≠ cpu) : (m.set c cpu x).cpus other = m.cpus other :=
  Function.update_of_ne h ..

@[simp] theorem SharedState.goto_cache : (m.goto c cpu control).cache = c := rfl

@[simp] theorem SharedState.goto_cpus_self :
    (m.goto c cpu control).cpus cpu = { m.cpus cpu with control } :=
  Function.update_self ..

end

inductive SharedStep (layout : MemoryLayout O) :
    SharedState C O → SharedLabel C O → SharedState C O → Prop
  | activate {m cpu oscs} : (m.cpus cpu).control = .idle →
    (∀ osc ∈ (m.cpus cpu).preloaded, osc ∈ oscs) →
    (∀ other ≠ cpu, ∀ osc ∈ oscs, osc ∉ (m.cpus other).active) →
    SharedStep layout m (.activate cpu oscs)
      (m.set m.cache cpu { m.cpus cpu with active := oscs })
  | preloadSingleOSC {m cpu osc} : (m.cpus cpu).control = .idle → osc ∈ (m.cpus cpu).active →
    SharedStep layout m (.preloadSingleOSC cpu osc) (m.set m.cache cpu
      { m.cpus cpu with
        preloaded := osc :: (m.cpus cpu).preloaded
        control := .preload osc (layout.getOSCStart osc) false })
  | getLRUWay {m cpu osc oscStart skipPreload way c} :
    (m.cpus cpu).control = .preload osc oscStart skipPreload → oscStart < layout.getOSCEnd osc →
    m.cache.getLRUWay oscStart = (some way, c) →
    SharedStep layout m (.getLRUWay cpu osc oscStart way)
      (m.goto c cpu (.handedOut osc oscStart skipPreload way))
  | noWay {m cpu osc oscStart skipPreload c} :
    (m.cpus cpu).control = .preload osc oscStart skipPreload → oscStart < layout.getOSCEnd osc →
    m.cache.getLRUWay oscStart = (none, c) →
    SharedStep layout m (.noWay cpu) (m.goto c cpu .noWay)
  | skipPreload {m cpu osc oscStart skipPreload way} :
    (m.cpus cpu).control = .handedOut osc oscStart skipPreload way →
    (skipPreload || (m.cache.mCacheWays way).dataStart == oscStart) = true →
    SharedStep layout m (.prefetchDataToWay cpu way)
      (m.goto m.cache cpu (.prefetched osc oscStart true way))
  | prefetchDataToWay {m cpu osc oscStart skipPreload way textEnd} :
    (m.cpus cpu).control = .handedOut osc oscStart skipPreload way →
    (skipPreload || (m.cache.mCacheWays way).dataStart == oscStart) = false →
    textEnd = (if layout.getOSCTextEnd osc ≤ preloadEnd layout oscStart (layout.getOSCEnd osc)
      then layout.getOSCTextEnd osc else preloadEnd layout oscStart (layout.getOSCEnd osc)) →
    SharedStep layout m (.prefetchDataToWay cpu way)
      (m.goto (m.cache.prefetchDataToWay oscStart
        (preloadEnd layout oscStart (layout.getOSCEnd osc)) textEnd way) cpu
        (.prefetched osc oscStart false way))
  | setDataStart {m cpu osc oscStart skipPreload way} :
    (m.cpus cpu).control = .prefetched osc oscStart skipPreload way →
    SharedStep layout m (.setDataStart cpu osc oscStart way)
      (m.goto (m.cache.setDataStart way oscStart) cpu (.startWritten osc oscStart skipPreload way))
  | setDataEnd {m cpu osc oscStart skipPreload way} :
    (m.cpus cpu).control = .startWritten osc oscStart skipPreload way →
    SharedStep layout m (.setDataEnd cpu osc oscStart way)
      (m.goto (m.cache.setDataEnd way (preloadEnd layout oscStart (layout.getOSCEnd osc))) cpu
        (.endWritten osc oscStart skipPreload way))
  | setOsc {m cpu osc oscStart skipPreload way} :
    (m.cpus cpu).control = .endWritten osc oscStart skipPreload way →
    SharedStep layout m (.setOsc cpu osc oscStart way)
      (m.goto (m.cache.setOsc way osc) cpu (.preload osc (nextStart
        (preloadEnd layout oscStart (layout.getOSCEnd osc)) (layout.getOSCEnd osc)) skipPreload))
  | preloaded {m cpu osc oscStart skipPreload} :
    (m.cpus cpu).control = .preload osc oscStart skipPreload → ¬ oscStart < layout.getOSCEnd osc →
    SharedStep layout m (.preloaded cpu) (m.goto m.cache cpu .idle)
  | lookupAndEvictOSC {m cpu osc} : (m.cpus cpu).control = .idle → osc ∈ (m.cpus cpu).active →
    SharedStep layout m (.lookupAndEvictOSC cpu osc) (m.goto m.cache cpu (.evict osc 0))
  | evictCacheWay {m cpu osc way} : (m.cpus cpu).control = .evict osc way →
    way < m.cache.mCacheWayCount →
    SharedStep layout m (.evictCacheWay cpu way)
      (m.goto (evictOne layout osc m.cache way) cpu (.evict osc (way + 1)))
  | freeOSC {m cpu osc way} : (m.cpus cpu).control = .evict osc way →
    ¬ way < m.cache.mCacheWayCount →
    SharedStep layout m (.freeOSC cpu osc) (m.set (m.cache.freeOSC layout osc) cpu
      { m.cpus cpu with
        preloaded := (m.cpus cpu).preloaded.filter (· ≠ osc)
        control := .idle })

/-! ## Holding a way -/

/-- The way is the CPU's for a part of one of its components. -/
structure HasWay (layout : MemoryLayout O) (c : GenericCacheManagement O) (x : CpuState O) (osc : O)
    (dataStart way : Nat) : Prop where
  lt : way < c.mCacheWayCount
  unlocked : (c.mCacheWays way).permanentLocked = false
  inUse : (c.mCacheWays way).inUse = true
  preloaded : osc ∈ x.preloaded
  start_le : layout.getOSCStart osc ≤ dataStart
  lt_end : dataStart < layout.getOSCEnd osc

/-- The CPU has the way, and the part is on record there or the CPU is about to record it. -/
structure Holds (layout : MemoryLayout O) (c : GenericCacheManagement O) (x : CpuState O) (osc : O)
    (dataStart way : Nat) : Prop extends HasWay layout c x osc dataStart way where
  dataStart : (c.mCacheWays way).dataStart = dataStart ∨
    (c.mCacheWays way).dataStart = 0 ∧ x.control.round = some (osc, dataStart, way, false)

/-- What a CPU keeps to. The round that is under way has its way, and no other way records the same
part. -/
structure CpuInv (layout : MemoryLayout O) (c : GenericCacheManagement O) (x : CpuState O) :
    Prop where
  active : ∀ osc ∈ x.preloaded, osc ∈ x.active
  evict : ∀ osc way, x.control = .evict osc way → osc ∈ x.active
  preload : ∀ osc oscStart skipPreload, x.control = .preload osc oscStart skipPreload →
    osc ∈ x.preloaded ∧ layout.getOSCStart osc ≤ oscStart
  holds : ∀ osc dataStart way written, x.control.round = some (osc, dataStart, way, written) →
    Holds layout c x osc dataStart way ∧
      ∀ v < c.mCacheWayCount, (c.mCacheWays v).dataStart = dataStart → v = way

/-- The invariant of all runs. -/
structure Exclusive (layout : MemoryLayout O) (m : SharedState C O) : Prop where
  disjoint : ∀ cpu cpu' osc, osc ∈ (m.cpus cpu).active → osc ∈ (m.cpus cpu').active → cpu = cpu'
  cpu : ∀ cpu, CpuInv layout m.cache (m.cpus cpu)
  locked : ∀ v, (m.cache.mCacheWays v).permanentLocked = true → (m.cache.mCacheWays v).dataStart = 0
  unique : ∀ v < m.cache.mCacheWayCount, ∀ v' < m.cache.mCacheWayCount,
    (m.cache.mCacheWays v).dataStart ≠ 0 →
    (m.cache.mCacheWays v').dataStart = (m.cache.mCacheWays v).dataStart → v' = v
  round : ∀ cpu cpu' osc osc' s s' way b b', (m.cpus cpu).control.round = some (osc, s, way, b) →
    (m.cpus cpu').control.round = some (osc', s', way, b') → cpu = cpu'

/-! ## Frames -/

variable {layout : MemoryLayout O} {c c' : GenericCacheManagement O} {x : CpuState O}
  {m m' : SharedState C O} {cpu : C} {osc : O} {dataStart way : Nat}

/-- What a way is used for is the same before and after. -/
structure SameUse (c c' : GenericCacheManagement O) (v : Nat) : Prop where
  permanentLocked : (c'.mCacheWays v).permanentLocked = (c.mCacheWays v).permanentLocked
  dataStart : (c'.mCacheWays v).dataStart = (c.mCacheWays v).dataStart
  inUse : (c'.mCacheWays v).inUse = (c.mCacheWays v).inUse

omit [DecidableEq O] in
theorem SameUse.of_eq {v : Nat} (h : c'.mCacheWays = c.mCacheWays) : SameUse c c' v := by
  refine ⟨?_, ?_, ?_⟩ <;> rw [h]

omit [DecidableEq O] in
theorem SameUse.of_unaged {v : Nat} (h : (c'.mCacheWays v).unaged = (c.mCacheWays v).unaged) :
    SameUse c c' v := by
  obtain ⟨hlocked, hstart, -, -, hinUse⟩ := CacheWayState.unaged_eq_iff.mp h
  exact ⟨hlocked, hstart, hinUse⟩

omit [DecidableEq O] in
theorem SameUse.modifyWay {v : Nat} {f : CacheWayState O → CacheWayState O}
    (h : v = way → (f (c.mCacheWays way)).permanentLocked = (c.mCacheWays way).permanentLocked ∧
      (f (c.mCacheWays way)).dataStart = (c.mCacheWays way).dataStart ∧
      (f (c.mCacheWays way)).inUse = (c.mCacheWays way).inUse) :
    SameUse c (c.modifyWay way f) v := by
  rcases eq_or_ne v way with rfl | hne
  · obtain ⟨hlocked, hstart, hinUse⟩ := h rfl
    refine ⟨?_, ?_, ?_⟩ <;> rwa [modifyWay_self]
  · refine ⟨?_, ?_, ?_⟩ <;> rw [modifyWay_of_ne hne]

omit [DecidableEq O] in
theorem HasWay.frame {x' : CpuState O} (h : HasWay layout c x osc dataStart way)
    (hcount : c'.mCacheWayCount = c.mCacheWayCount) (hway : SameUse c c' way)
    (hpreloaded : osc ∈ x'.preloaded) : HasWay layout c' x' osc dataStart way where
  lt := hcount ▸ h.lt
  unlocked := hway.permanentLocked.trans h.unlocked
  inUse := hway.inUse.trans h.inUse
  preloaded := hpreloaded
  start_le := h.start_le
  lt_end := h.lt_end

omit [DecidableEq O] in
theorem Holds.frame {x' : CpuState O} (h : Holds layout c x osc dataStart way)
    (hcount : c'.mCacheWayCount = c.mCacheWayCount) (hway : SameUse c c' way)
    (hpreloaded : osc ∈ x'.preloaded)
    (hround : x.control.round = some (osc, dataStart, way, false) →
      x'.control.round = some (osc, dataStart, way, false)) :
    Holds layout c' x' osc dataStart way := by
  refine ⟨h.toHasWay.frame hcount hway hpreloaded, ?_⟩
  rw [hway.dataStart]
  exact h.dataStart.imp_right fun ⟨hzero, hold⟩ => ⟨hzero, hround hold⟩

omit [DecidableEq O] in
/-- A CPU keeps to what it does as long as its way is left alone and no other way comes to record
the same part. -/
theorem CpuInv.frame (h : CpuInv layout c x) (hcount : c'.mCacheWayCount = c.mCacheWayCount)
    (hway : ∀ osc dataStart way b, x.control.round = some (osc, dataStart, way, b) →
      SameUse c c' way ∧ ∀ v, (c'.mCacheWays v).dataStart = dataStart →
        (c.mCacheWays v).dataStart = dataStart) : CpuInv layout c' x := by
  refine ⟨h.active, h.evict, h.preload, fun osc dataStart way b hround => ?_⟩
  obtain ⟨hholds, honly⟩ := h.holds osc dataStart way b hround
  obtain ⟨hsame, hother⟩ := hway osc dataStart way b hround
  refine ⟨hholds.frame hcount hsame hholds.preloaded id, fun v hv hstart => ?_⟩
  · exact honly v (hcount ▸ hv) (hother v hstart)

omit [DecidableEq O] in
theorem CpuInv.of_sameUse (h : CpuInv layout c x) (hcount : c'.mCacheWayCount = c.mCacheWayCount)
    (hsame : ∀ v, SameUse c c' v) : CpuInv layout c' x := by
  refine h.frame hcount fun _ _ way _ _ => ⟨hsame way, fun v hv => ?_⟩
  rwa [(hsame v).dataStart] at hv

omit [DecidableEq O] in
theorem Exclusive.set (h : Exclusive layout m) (hx : CpuInv layout c x)
    (hothers : ∀ other ≠ cpu, CpuInv layout c (m.cpus other))
    (hdisjoint : ∀ other ≠ cpu, ∀ osc ∈ x.active, osc ∉ (m.cpus other).active)
    (hlocked : ∀ v, (c.mCacheWays v).permanentLocked = true → (c.mCacheWays v).dataStart = 0)
    (hunique : ∀ v < c.mCacheWayCount, ∀ v' < c.mCacheWayCount, (c.mCacheWays v).dataStart ≠ 0 →
      (c.mCacheWays v').dataStart = (c.mCacheWays v).dataStart → v' = v)
    (hround : ∀ osc s way b, x.control.round = some (osc, s, way, b) → ∀ other ≠ cpu,
      ∀ osc' s' b', (m.cpus other).control.round ≠ some (osc', s', way, b')) :
    Exclusive layout (m.set c cpu x) := by
  have hself : (m.set c cpu x).cpus cpu = x := SharedState.set_cpus_self
  have hother : ∀ other ≠ cpu, (m.set c cpu x).cpus other = m.cpus other :=
    fun other hne => Function.update_of_ne hne ..
  refine ⟨fun i j osc hi hj => ?_, fun i => ?_, hlocked, hunique,
    fun i j osc osc' s s' way b b' hi hj => ?_⟩
  · rcases eq_or_ne i cpu with hicpu | hicpu <;> rcases eq_or_ne j cpu with hjcpu | hjcpu
    · rw [hicpu, hjcpu]
    · rw [hicpu, hself] at hi
      rw [hother j hjcpu] at hj
      exact absurd hj (hdisjoint j hjcpu osc hi)
    · rw [hjcpu, hself] at hj
      rw [hother i hicpu] at hi
      exact absurd hi (hdisjoint i hicpu osc hj)
    · rw [hother i hicpu] at hi
      rw [hother j hjcpu] at hj
      exact h.disjoint i j osc hi hj
  · rcases eq_or_ne i cpu with rfl | hne
    · rw [hself]
      exact hx
    · rw [hother i hne]
      exact hothers i hne
  · rcases eq_or_ne i cpu with hicpu | hicpu <;> rcases eq_or_ne j cpu with hjcpu | hjcpu
    · rw [hicpu, hjcpu]
    · rw [hicpu, hself] at hi
      rw [hother j hjcpu] at hj
      exact absurd hj (hround _ _ _ _ hi j hjcpu _ _ _)
    · rw [hjcpu, hself] at hj
      rw [hother i hicpu] at hi
      exact absurd hi (hround _ _ _ _ hj i hicpu _ _ _)
    · rw [hother i hicpu] at hi
      rw [hother j hjcpu] at hj
      exact h.round i j _ _ _ _ _ _ _ hi hj

omit [DecidableEq O] in
/-- A step that leaves the use of all ways as it is. -/
theorem Exclusive.set_of_sameUse (h : Exclusive layout m)
    (hcount : c.mCacheWayCount = m.cache.mCacheWayCount) (hsame : ∀ v, SameUse m.cache c v)
    (hx : CpuInv layout c x) (hactive : x.active = (m.cpus cpu).active)
    (hround : ∀ osc s way b, x.control.round = some (osc, s, way, b) →
      ∃ b', (m.cpus cpu).control.round = some (osc, s, way, b')) :
    Exclusive layout (m.set c cpu x) := by
  refine h.set hx (fun other _ => (h.cpu other).of_sameUse hcount hsame) ?_ ?_ ?_ ?_
  · intro other hne osc hosc hother
    exact hne (h.disjoint other cpu osc hother (hactive ▸ hosc))
  · intro v hv
    rw [(hsame v).permanentLocked] at hv
    rw [(hsame v).dataStart]
    exact h.locked v hv
  · intro v hv v' hv'
    rw [(hsame v).dataStart, (hsame v').dataStart]
    exact h.unique v (hcount ▸ hv) v' (hcount ▸ hv')
  · intro osc s way b hb other hne osc' s' b' hother
    obtain ⟨b₁, hb₁⟩ := hround osc s way b hb
    exact hne (h.round other cpu _ _ _ _ _ _ _ hother hb₁)

/-! ## One step -/

omit [DecidableEq C] [DecidableEq O] in
/-- A part belongs to one component, and the component to one CPU. -/
theorem Exclusive.eq_of_part (hlayout : layout.Disjoint) (h : Exclusive layout m) {other : C}
    {osc' : O} {a : Nat} (hosc : osc ∈ (m.cpus cpu).preloaded) (hle : layout.getOSCStart osc ≤ a)
    (hlt : a < layout.getOSCEnd osc) (hosc' : osc' ∈ (m.cpus other).preloaded)
    (hle' : layout.getOSCStart osc' ≤ a) (hlt' : a < layout.getOSCEnd osc') :
    other = cpu ∧ osc' = osc := by
  obtain rfl := hlayout.eq_of_mem hle' hlt' hle hlt
  exact ⟨h.disjoint other cpu _ ((h.cpu other).active _ hosc') ((h.cpu cpu).active _ hosc), rfl⟩

omit [DecidableEq C] [DecidableEq O] in
/-- A way that is held is handed out for the part it is held for, and to its holder. -/
theorem HandsOut.holder (hlayout : layout.Disjoint) (h : Exclusive layout m) {other : C} {osc' : O}
    {a : Nat} (hhands : HandsOut m.cache dataStart way c) (hosc : osc ∈ (m.cpus cpu).preloaded)
    (hle : layout.getOSCStart osc ≤ dataStart) (hlt : dataStart < layout.getOSCEnd osc)
    (hholds : Holds layout m.cache (m.cpus other) osc' a way) :
    other = cpu ∧ osc' = osc ∧ a = dataStart := by
  have hpos : 0 < dataStart := (hlayout.start_pos osc).trans_le hle
  rcases hhands.cases with ⟨hfound, -⟩ | ⟨-, -, hfree, -⟩
  · obtain ⟨-, hstart⟩ := findWay_eq_some hfound
    have ha : a = dataStart := by
      rcases hholds.dataStart with ha | ⟨hzero, -⟩
      · rw [← ha, hstart]
      · omega
    subst ha
    obtain ⟨hcpu, hosc'⟩ := h.eq_of_part hlayout hosc hle hlt hholds.preloaded hholds.start_le
      hholds.lt_end
    exact ⟨hcpu, hosc', rfl⟩
  · rw [hholds.inUse] at hfree
    cases hfree

omit [DecidableEq O] in
theorem CpuInv.of_round {b : Bool} (hactive : ∀ osc ∈ x.preloaded, osc ∈ x.active)
    (hround : x.control.round = some (osc, dataStart, way, b))
    (hholds : Holds layout c x osc dataStart way)
    (honly : ∀ v < c.mCacheWayCount, (c.mCacheWays v).dataStart = dataStart → v = way) :
    CpuInv layout c x := by
  refine ⟨hactive, fun osc way hevict => ?_, fun osc a skip hpreload => ?_,
    fun osc' a way' b' hround' => ?_⟩
  · rw [hevict] at hround
    cases hround
  · rw [hpreload] at hround
    cases hround
  · rw [hround] at hround'
    simp only [Option.some.injEq, Prod.mk.injEq] at hround'
    obtain ⟨rfl, rfl, rfl, -⟩ := hround'
    exact ⟨hholds, honly⟩

omit [DecidableEq O] in
theorem CpuInv.of_no_round (hactive : ∀ osc ∈ x.preloaded, osc ∈ x.active)
    (hevict : ∀ osc way, x.control = .evict osc way → osc ∈ x.active)
    (hpreload : ∀ osc oscStart skipPreload, x.control = .preload osc oscStart skipPreload →
      osc ∈ x.preloaded ∧ layout.getOSCStart osc ≤ oscStart)
    (hround : x.control.round = none) : CpuInv layout c x := by
  refine ⟨hactive, hevict, hpreload, fun osc a way b hb => ?_⟩
  rw [hround] at hb
  cases hb

omit [DecidableEq C] [DecidableEq O] in
/-- What all ways keep to stays so where one way only has changed, one that is not locked and the
only one to record its part. -/
theorem Exclusive.ways_of_other (h : Exclusive layout m)
    (hcount : c.mCacheWayCount = m.cache.mCacheWayCount) (hsame : ∀ v ≠ way, SameUse m.cache c v)
    (hunlocked : (c.mCacheWays way).permanentLocked = false)
    (honly : (c.mCacheWays way).dataStart ≠ 0 → ∀ v < c.mCacheWayCount,
      (c.mCacheWays v).dataStart = (c.mCacheWays way).dataStart → v = way) :
    (∀ v, (c.mCacheWays v).permanentLocked = true → (c.mCacheWays v).dataStart = 0) ∧
      ∀ v < c.mCacheWayCount, ∀ v' < c.mCacheWayCount, (c.mCacheWays v).dataStart ≠ 0 →
        (c.mCacheWays v').dataStart = (c.mCacheWays v).dataStart → v' = v := by
  refine ⟨fun v hv => ?_, fun v hv v' hv' hne heq => ?_⟩
  · rcases eq_or_ne v way with rfl | hne
    · rw [hunlocked] at hv
      cases hv
    · rw [(hsame v hne).permanentLocked] at hv
      rw [(hsame v hne).dataStart]
      exact h.locked v hv
  · rcases eq_or_ne v way with rfl | hvw
    · exact honly hne v' hv' heq
    · rcases eq_or_ne v' way with rfl | hvw'
      · exact (honly (heq ▸ hne) v hv heq.symm).symm
      · rw [(hsame v hvw).dataStart] at hne heq
        rw [(hsame v' hvw').dataStart] at heq
        exact h.unique v (hcount ▸ hv) v' (hcount ▸ hv') hne heq

omit [DecidableEq O] in
theorem Exclusive.getLRUWay (hlayout : layout.Disjoint) (h : Exclusive layout m)
    {oscStart : Nat} {skipPreload : Bool}
    (hcontrol : (m.cpus cpu).control = .preload osc oscStart skipPreload)
    (hlt : oscStart < layout.getOSCEnd osc) (hhands : HandsOut m.cache oscStart way c) :
    Exclusive layout (m.goto c cpu (.handedOut osc oscStart skipPreload way)) := by
  obtain ⟨hosc, hle⟩ := (h.cpu cpu).preload osc oscStart skipPreload hcontrol
  have hpos : 0 < oscStart := (hlayout.start_pos osc).trans_le hle
  have hsame : ∀ v ≠ way, SameUse m.cache c v := fun v hv => .of_unaged (hhands.other v hv).1
  have hunlocked : (c.mCacheWays way).permanentLocked = false := by
    rw [hhands.locked]
    rcases hhands.cases with ⟨hfound, -⟩ | ⟨-, hunlocked, -⟩
    · obtain ⟨-, hstart⟩ := findWay_eq_some hfound
      cases hlocked : (m.cache.mCacheWays way).permanentLocked with
      | false => rfl
      | true =>
        have := h.locked way hlocked
        omega
    · exact hunlocked
  have hstart : (c.mCacheWays way).dataStart = oscStart ∨ (c.mCacheWays way).dataStart = 0 := by
    rcases hhands.cases with ⟨-, hstart, -⟩ | ⟨-, -, -, hstart, -⟩
    · exact .inl hstart
    · exact .inr hstart
  have honly : ∀ v < c.mCacheWayCount, (c.mCacheWays v).dataStart = oscStart → v = way := by
    intro v hv hstart
    rw [hhands.count] at hv
    rcases eq_or_ne v way with rfl | hne
    · rfl
    rw [(hsame v hne).dataStart] at hstart
    rcases hhands.cases with ⟨hfound, -⟩ | ⟨hnone, -⟩
    · obtain ⟨hway, hfirst⟩ := findWay_eq_some hfound
      exact h.unique way hway v hv (by omega) (hstart.trans hfirst.symm)
    · exact absurd hstart (findWay_eq_none hnone v hv)
  -- no other CPU is in a round with this way, or for this part
  have hother : ∀ other ≠ cpu, ∀ osc' a way' b,
      (m.cpus other).control.round = some (osc', a, way', b) → way' ≠ way ∧ a ≠ oscStart := by
    intro other hne osc' a way' b hround
    obtain ⟨hholds, -⟩ := (h.cpu other).holds osc' a way' b hround
    refine ⟨?_, ?_⟩
    · rintro rfl
      exact hne (hhands.holder hlayout h hosc hle hlt hholds).1
    · rintro rfl
      exact hne (h.eq_of_part hlayout hosc hle hlt hholds.preloaded hholds.start_le
        hholds.lt_end).1
  obtain ⟨hlocked, hunique⟩ := h.ways_of_other hhands.count hsame hunlocked fun hne v hv heq =>
    honly v hv (by omega)
  refine h.set (.of_round (h.cpu cpu).active rfl ?_ honly) ?_ ?_ hlocked hunique ?_
  · refine ⟨⟨hhands.count ▸ hhands.lt, hunlocked, hhands.inUse, hosc, hle, hlt⟩, ?_⟩
    exact hstart.imp_right fun hzero => ⟨hzero, rfl⟩
  · intro other hne
    refine (h.cpu other).frame hhands.count fun osc' a way' b hround => ?_
    obtain ⟨hway, ha⟩ := hother other hne osc' a way' b hround
    refine ⟨hsame way' hway, fun v hv => ?_⟩
    rcases eq_or_ne v way with rfl | hv'
    · have hpos' : 0 < a := (hlayout.start_pos osc').trans_le
        ((h.cpu other).holds osc' a way' b hround).1.start_le
      omega
    · rwa [(hsame v hv').dataStart] at hv
  · intro other hne osc' hosc' hother'
    exact hne (h.disjoint other cpu osc' hother' hosc')
  · intro osc₁ a₁ way₁ b₁ hround₁ other hne osc' a b hround
    obtain ⟨rfl, rfl, rfl, rfl⟩ : osc = osc₁ ∧ oscStart = a₁ ∧ way = way₁ ∧ false = b₁ := by
      simpa [Control.round] using hround₁
    exact (hother other hne osc' a way b hround).1 rfl

omit [DecidableEq O] in
theorem Exclusive.setDataStart (hlayout : layout.Disjoint) (h : Exclusive layout m)
    {oscStart : Nat} {skipPreload : Bool}
    (hcontrol : (m.cpus cpu).control = .prefetched osc oscStart skipPreload way) :
    Exclusive layout (m.goto (m.cache.setDataStart way oscStart) cpu
      (.startWritten osc oscStart skipPreload way)) := by
  obtain ⟨hholds, honly⟩ := (h.cpu cpu).holds osc oscStart way false (by rw [hcontrol]; rfl)
  have hself : (m.cache.setDataStart way oscStart).mCacheWays way =
      { m.cache.mCacheWays way with dataStart := oscStart } := modifyWay_self
  have hsame : ∀ v ≠ way, SameUse m.cache (m.cache.setDataStart way oscStart) v :=
    fun v hv => .modifyWay fun h => absurd h hv
  have honly' : ∀ v < m.cache.mCacheWayCount,
      ((m.cache.setDataStart way oscStart).mCacheWays v).dataStart = oscStart → v = way := by
    intro v hv hstart
    rcases eq_or_ne v way with rfl | hne
    · rfl
    · rw [(hsame v hne).dataStart] at hstart
      exact honly v hv hstart
  have hunlocked : ((m.cache.setDataStart way oscStart).mCacheWays way).permanentLocked =
      false := by
    rw [hself]
    exact hholds.unlocked
  have hcount : (m.cache.setDataStart way oscStart).mCacheWayCount = m.cache.mCacheWayCount := rfl
  obtain ⟨hlocked, hunique⟩ := h.ways_of_other hcount hsame hunlocked fun _ v hv heq =>
    honly' v hv (by rw [heq, hself])
  refine h.set (.of_round (h.cpu cpu).active rfl ?_ honly') ?_ ?_ hlocked hunique ?_
  · refine ⟨⟨hholds.lt, hunlocked, ?_, hholds.preloaded, hholds.start_le, hholds.lt_end⟩, .inl ?_⟩
    · rw [hself]
      exact hholds.inUse
    · rw [hself]
  · intro other hne
    refine (h.cpu other).frame rfl fun osc' a way' b hround => ?_
    have hway : way' ≠ way := by
      rintro rfl
      exact hne (h.round other cpu _ _ _ _ _ _ _ hround (by rw [hcontrol]; rfl))
    refine ⟨hsame way' hway, fun v hv => ?_⟩
    rcases eq_or_ne v way with rfl | hv'
    · rw [hself] at hv
      simp only at hv
      subst hv
      obtain ⟨hother, -⟩ := (h.cpu other).holds osc' _ way' b hround
      exact absurd (h.eq_of_part hlayout hholds.preloaded hholds.start_le hholds.lt_end
        hother.preloaded hother.start_le hother.lt_end).1 hne
    · rwa [(hsame v hv').dataStart] at hv
  · intro other hne osc' hosc' hother'
    exact hne (h.disjoint other cpu osc' hother' hosc')
  · intro osc₁ a₁ way₁ b₁ hround₁ other hne osc' a b hround
    obtain ⟨rfl, rfl, rfl, rfl⟩ : osc = osc₁ ∧ oscStart = a₁ ∧ way = way₁ ∧ true = b₁ := by
      simpa [Control.round] using hround₁
    exact hne (h.round other cpu _ _ _ _ _ _ _ hround (by rw [hcontrol]; rfl))

theorem freeOSC_count (layout : MemoryLayout O) (c : GenericCacheManagement O) (osc : O) :
    (c.freeOSC layout osc).mCacheWayCount = c.mCacheWayCount := by
  rw [GenericCacheManagement.freeOSC, (freeLoop_eq layout osc _ _).2.1]

/-- `freeOSC` takes away the use of ways and nothing else. -/
theorem freeOSC_way (layout : MemoryLayout O) (c : GenericCacheManagement O) (osc : O) (v : Nat) :
    ((c.freeOSC layout osc).mCacheWays v).permanentLocked = (c.mCacheWays v).permanentLocked ∧
      ((c.freeOSC layout osc).mCacheWays v).dataStart = (c.mCacheWays v).dataStart ∧
      ((c.freeOSC layout osc).mCacheWays v).osc = (c.mCacheWays v).osc ∧
      (¬ c.contains layout osc v →
        ((c.freeOSC layout osc).mCacheWays v).inUse = (c.mCacheWays v).inUse) := by
  rw [GenericCacheManagement.freeOSC, (freeLoop_eq layout osc _ _).2.2 v]
  split
  · next h => exact ⟨rfl, rfl, rfl, fun hnot => absurd h.2 hnot⟩
  · exact ⟨rfl, rfl, rfl, fun _ => rfl⟩

omit [DecidableEq O] [DecidableEq C] in
/-- An eviction recognises a way that is held only if it is held for the component. -/
theorem Holds.contains (hlayout : layout.Disjoint) {osc' : O}
    (h : Holds layout c x osc dataStart way) (hcontains : c.contains layout osc' way) :
    osc' = osc := by
  obtain ⟨hle, hlt, -⟩ := hcontains
  rcases h.dataStart with heq | ⟨hzero, -⟩
  · rw [heq] at hle hlt
    exact hlayout.eq_of_mem hle hlt h.start_le h.lt_end
  · have := hlayout.start_pos osc'
    omega

theorem Exclusive.freeOSC (hlayout : layout.Disjoint) (h : Exclusive layout m)
    (hcontrol : (m.cpus cpu).control = .evict osc way) :
    Exclusive layout (m.set (m.cache.freeOSC layout osc) cpu
      { m.cpus cpu with
        preloaded := (m.cpus cpu).preloaded.filter (· ≠ osc)
        control := .idle }) := by
  have hosc := (h.cpu cpu).evict osc way hcontrol
  have hcount := freeOSC_count layout m.cache osc
  have hway := freeOSC_way layout m.cache osc
  refine h.set (.of_no_round ?_ (by simp) (by simp) rfl) ?_ ?_ ?_ ?_ ?_
  · intro osc' hosc'
    exact (h.cpu cpu).active osc' (List.mem_of_mem_filter hosc')
  · intro other hne
    refine (h.cpu other).frame hcount fun osc' a way' b hround => ?_
    obtain ⟨hholds, -⟩ := (h.cpu other).holds osc' a way' b hround
    have hnot : ¬ m.cache.contains layout osc way' := by
      intro hcontains
      obtain rfl := hholds.contains hlayout hcontains
      exact hne (h.disjoint other cpu _ ((h.cpu other).active _ hholds.preloaded) hosc)
    obtain ⟨hlocked, hstart, -, hinUse⟩ := hway way'
    refine ⟨⟨hlocked, hstart, hinUse hnot⟩, fun v hv => ?_⟩
    rwa [(hway v).2.1] at hv
  · intro other hne osc' hosc' hother'
    exact hne (h.disjoint other cpu osc' hother' hosc')
  · intro v hv
    rw [(hway v).1] at hv
    rw [(hway v).2.1]
    exact h.locked v hv
  · intro v hv v' hv'
    rw [(hway v).2.1, (hway v').2.1]
    exact h.unique v (hcount ▸ hv) v' (hcount ▸ hv')
  · intro _ _ _ _ hround
    cases hround

omit [DecidableEq C] in
theorem SameUse.evictOne (layout : MemoryLayout O) (osc : O) (c : GenericCacheManagement O)
    (way v : Nat) : SameUse c (evictOne layout osc c way) v := by
  rw [GenericCacheManagement.evictOne]
  split <;> exact .of_eq rfl

theorem evictOne_count (layout : MemoryLayout O) (osc : O) (c : GenericCacheManagement O)
    (way : Nat) : (evictOne layout osc c way).mCacheWayCount = c.mCacheWayCount := by
  rw [GenericCacheManagement.evictOne]
  split <;> rfl

omit [DecidableEq O] in
/-- A CPU that goes on with its round. -/
theorem Exclusive.goto_round (h : Exclusive layout m) {control : Control O} {b : Bool}
    (hold : (m.cpus cpu).control.round = some (osc, dataStart, way, b))
    (hnew : control.round = some (osc, dataStart, way, b))
    (hcount : c.mCacheWayCount = m.cache.mCacheWayCount) (hsame : ∀ v, SameUse m.cache c v) :
    Exclusive layout (m.goto c cpu control) := by
  obtain ⟨hholds, honly⟩ := (h.cpu cpu).holds osc dataStart way b hold
  refine h.set_of_sameUse hcount hsame (.of_round (h.cpu cpu).active hnew ?_ ?_) rfl ?_
  · exact hholds.frame hcount (hsame way) hholds.preloaded fun hround =>
      hnew.trans (hold.symm.trans hround)
  · intro v hv hstart
    rw [(hsame v).dataStart] at hstart
    exact honly v (hcount ▸ hv) hstart
  · intro osc' a way' b' hb
    exact ⟨b', hold.trans (hnew.symm.trans hb)⟩

omit [DecidableEq O] in
/-- A CPU that is in no round afterwards. -/
theorem Exclusive.goto_no_round (h : Exclusive layout m) {control : Control O}
    (hevict : ∀ osc way, control = .evict osc way → osc ∈ (m.cpus cpu).active)
    (hpreload : ∀ osc oscStart skipPreload, control = .preload osc oscStart skipPreload →
      osc ∈ (m.cpus cpu).preloaded ∧ layout.getOSCStart osc ≤ oscStart)
    (hround : control.round = none) (hcount : c.mCacheWayCount = m.cache.mCacheWayCount)
    (hsame : ∀ v, SameUse m.cache c v) : Exclusive layout (m.goto c cpu control) := by
  refine h.set_of_sameUse hcount hsame (.of_no_round (h.cpu cpu).active hevict hpreload hround) rfl
    ?_
  intro _ _ _ _ hb
  rw [show ({ m.cpus cpu with control } : CpuState O).control = control from rfl, hround] at hb
  cases hb

/-- A step keeps the invariant. -/
theorem Exclusive.step (hlayout : layout.Disjoint) (h : Exclusive layout m) {l : SharedLabel C O}
    (hstep : SharedStep layout m l m') : Exclusive layout m' := by
  cases hstep with
  | @activate cpu oscs hcontrol hkeeps hdisjoint =>
    refine h.set (.of_no_round hkeeps ?_ ?_ ?_) (fun other _ => h.cpu other) hdisjoint h.locked
      h.unique ?_
    · simp [hcontrol]
    · simp [hcontrol]
    · simp [hcontrol, Control.round]
    · simp [hcontrol, Control.round]
  | @preloadSingleOSC cpu osc hcontrol hosc =>
    refine h.set_of_sameUse rfl (fun _ => .of_eq rfl) (.of_no_round ?_ (by simp) ?_ rfl) rfl ?_
    · intro osc' hosc'
      rcases List.mem_cons.mp hosc' with rfl | hosc'
      · exact hosc
      · exact (h.cpu cpu).active osc' hosc'
    · intro osc' oscStart skipPreload heq
      cases heq
      exact ⟨List.mem_cons_self, le_refl _⟩
    · intro _ _ _ _ hround
      cases hround
  | @getLRUWay cpu osc oscStart skipPreload way c hcontrol hlt hway =>
    exact h.getLRUWay hlayout hcontrol hlt (getLRUWay_some hway)
  | @noWay cpu osc oscStart skipPreload c hcontrol _ hway =>
    have hages := getLRUWay_none hway
    exact h.goto_no_round (by simp) (by simp) rfl hages.count fun v => .of_unaged (hages.way v)
  | @skipPreload cpu osc oscStart skipPreload way hcontrol _ =>
    exact h.goto_round (by rw [hcontrol]; rfl) rfl rfl fun _ => .of_eq rfl
  | @prefetchDataToWay cpu osc oscStart skipPreload way textEnd hcontrol _ _ =>
    exact h.goto_round (by rw [hcontrol]; rfl) rfl rfl fun _ => .of_eq rfl
  | @setDataStart cpu osc oscStart skipPreload way hcontrol => exact h.setDataStart hlayout hcontrol
  | @setDataEnd cpu osc oscStart skipPreload way hcontrol =>
    exact h.goto_round (by rw [hcontrol]; rfl) rfl rfl fun _ => .modifyWay fun _ => ⟨rfl, rfl, rfl⟩
  | @setOsc cpu osc oscStart skipPreload way hcontrol =>
    obtain ⟨hholds, -⟩ := (h.cpu cpu).holds osc oscStart way true (by rw [hcontrol]; rfl)
    refine h.goto_no_round (by simp) ?_ rfl rfl fun _ => .modifyWay fun _ => ⟨rfl, rfl, rfl⟩
    intro osc' oscStart' skipPreload' heq
    cases heq
    have hnext := lt_nextStart layout hholds.lt_end
    exact ⟨hholds.preloaded, hholds.start_le.trans hnext.le⟩
  | @preloaded cpu osc oscStart skipPreload hcontrol _ =>
    exact h.goto_no_round (by simp) (by simp) rfl rfl fun _ => .of_eq rfl
  | @lookupAndEvictOSC cpu osc hcontrol hosc =>
    refine h.goto_no_round ?_ (by simp) rfl rfl fun _ => .of_eq rfl
    intro osc' way heq
    cases heq
    exact hosc
  | @evictCacheWay cpu osc way hcontrol _ =>
    refine h.goto_no_round ?_ (by simp) rfl (evictOne_count ..) fun v => .evictOne ..
    intro osc' way' heq
    cases heq
    exact (h.cpu cpu).evict osc way hcontrol
  | @freeOSC cpu osc way hcontrol _ => exact h.freeOSC hlayout hcontrol

/-! ## Runs -/

omit [DecidableEq C] [DecidableEq O] in
/-- A way has one holder, for one part. -/
theorem Exclusive.holder_unique (hlayout : layout.Disjoint) (h : Exclusive layout m) {other : C}
    {osc' : O} {a : Nat} (hholds : Holds layout m.cache (m.cpus cpu) osc dataStart way)
    (hother : Holds layout m.cache (m.cpus other) osc' a way) :
    other = cpu ∧ osc' = osc ∧ a = dataStart := by
  have hpos := (hlayout.start_pos osc).trans_le hholds.start_le
  have hpos' := (hlayout.start_pos osc').trans_le hother.start_le
  rcases hholds.dataStart with heq | ⟨hzero, hround⟩
  · rcases hother.dataStart with heq' | ⟨hzero', -⟩
    · obtain rfl : a = dataStart := heq'.symm.trans heq
      obtain ⟨hcpu, hosc⟩ := h.eq_of_part hlayout hholds.preloaded hholds.start_le hholds.lt_end
        hother.preloaded hother.start_le hother.lt_end
      exact ⟨hcpu, hosc, rfl⟩
    · omega
  · rcases hother.dataStart with heq' | ⟨-, hround'⟩
    · omega
    · obtain rfl := h.round other cpu _ _ _ _ _ _ _ hround' hround
      rw [hround] at hround'
      simp only [Option.some.injEq, Prod.mk.injEq] at hround'
      exact ⟨rfl, hround'.1.symm, hround'.2.1.symm⟩

omit [DecidableEq O] in
theorem Holds.set {other : C} (h : Holds layout m.cache (m.cpus cpu) osc dataStart way)
    (hcount : c.mCacheWayCount = m.cache.mCacheWayCount) (hway : SameUse m.cache c way)
    (hx : other = cpu → osc ∈ x.preloaded ∧
      ((m.cpus cpu).control.round = some (osc, dataStart, way, false) →
        x.control.round = some (osc, dataStart, way, false))) :
    Holds layout (m.set c other x).cache ((m.set c other x).cpus cpu) osc dataStart way := by
  rcases eq_or_ne cpu other with rfl | hne
  · obtain ⟨hpreloaded, hround⟩ := hx rfl
    have hself : (m.set c cpu x).cpus cpu = x := SharedState.set_cpus_self
    rw [hself]
    exact h.frame hcount hway hpreloaded hround
  · have hother : (m.set c other x).cpus cpu = m.cpus cpu := SharedState.set_cpus_of_ne hne
    rw [hother]
    exact h.frame hcount hway h.preloaded id

omit [DecidableEq O] in
/-- A CPU that keeps its round, if it is in one, keeps its ways. -/
theorem Holds.goto {other : C} {x : Control O}
    (h : Holds layout m.cache (m.cpus cpu) osc dataStart way)
    (hcount : c.mCacheWayCount = m.cache.mCacheWayCount) (hway : SameUse m.cache c way)
    (hround : (m.cpus other).control.round = some (osc, dataStart, way, false) →
      x.round = some (osc, dataStart, way, false)) :
    Holds layout (m.goto c other x).cache ((m.goto c other x).cpus cpu) osc dataStart way := by
  refine h.set hcount hway fun hcpu => ?_
  subst hcpu
  exact ⟨h.preloaded, hround⟩

/-- A way is held until its holder evicts the component. -/
theorem Holds.step (hlayout : layout.Disjoint) (h : Exclusive layout m) {l : SharedLabel C O}
    (hholds : Holds layout m.cache (m.cpus cpu) osc dataStart way)
    (hstep : SharedStep layout m l m') (hl : l ≠ .freeOSC cpu osc) :
    Holds layout m'.cache (m'.cpus cpu) osc dataStart way := by
  have hinv := h.step hlayout hstep
  cases hstep with
  | @activate other oscs hcontrol hkeeps _ =>
    exact hholds.set rfl (.of_eq rfl) fun hcpu => ⟨hcpu ▸ hholds.preloaded, hcpu ▸ id⟩
  | @preloadSingleOSC other osc' hcontrol _ =>
    refine hholds.set rfl (.of_eq rfl) fun hcpu => ?_
    subst hcpu
    exact ⟨List.mem_cons_of_mem _ hholds.preloaded, by simp [hcontrol, Control.round]⟩
  | @getLRUWay other osc' oscStart skipPreload way' c hcontrol hlt hway =>
    have hhands := getLRUWay_some hway
    obtain ⟨hosc', hle⟩ := (h.cpu other).preload osc' oscStart skipPreload hcontrol
    rcases eq_or_ne way way' with rfl | hne
    · obtain ⟨rfl, rfl, rfl⟩ := hhands.holder hlayout h hosc' hle hlt hholds
      refine ((hinv.cpu cpu).holds osc dataStart way false ?_).1
      simp [Control.round]
    · exact hholds.goto hhands.count (.of_unaged (hhands.other way hne).1)
        (by simp [hcontrol, Control.round])
  | @noWay other osc' oscStart skipPreload c hcontrol _ hway =>
    have hages := getLRUWay_none hway
    exact hholds.goto hages.count (.of_unaged (hages.way way)) (by simp [hcontrol, Control.round])
  | @skipPreload other osc' oscStart skipPreload way' hcontrol _ =>
    exact hholds.goto rfl (.of_eq rfl) (by simp [hcontrol, Control.round])
  | @prefetchDataToWay other osc' oscStart skipPreload way' textEnd hcontrol _ _ =>
    exact hholds.goto rfl (.of_eq rfl) (by simp [hcontrol, Control.round])
  | @setDataStart other osc' oscStart skipPreload way' hcontrol =>
    rcases eq_or_ne way way' with rfl | hne
    · obtain ⟨hother, -⟩ := (h.cpu other).holds osc' oscStart way false (by rw [hcontrol]; rfl)
      obtain ⟨rfl, rfl, rfl⟩ := h.holder_unique hlayout hholds hother
      refine ((hinv.cpu other).holds osc' oscStart way true ?_).1
      simp [Control.round]
    · refine hholds.goto rfl (.modifyWay fun hway => absurd hway hne) fun hround => ?_
      rw [hcontrol] at hround
      simp only [Control.round, Option.some.injEq, Prod.mk.injEq] at hround
      exact absurd hround.2.2.1.symm hne
  | @setDataEnd other osc' oscStart skipPreload way' hcontrol =>
    exact hholds.goto rfl (.modifyWay fun _ => ⟨rfl, rfl, rfl⟩) (by simp [hcontrol, Control.round])
  | @setOsc other osc' oscStart skipPreload way' hcontrol =>
    exact hholds.goto rfl (.modifyWay fun _ => ⟨rfl, rfl, rfl⟩) (by simp [hcontrol, Control.round])
  | @preloaded other osc' oscStart skipPreload hcontrol _ =>
    exact hholds.goto rfl (.of_eq rfl) (by simp [hcontrol, Control.round])
  | @lookupAndEvictOSC other osc' hcontrol _ =>
    exact hholds.goto rfl (.of_eq rfl) (by simp [hcontrol, Control.round])
  | @evictCacheWay other osc' way' hcontrol _ =>
    exact hholds.goto (evictOne_count ..) (.evictOne ..) (by simp [hcontrol, Control.round])
  | @freeOSC other osc' way' hcontrol _ =>
    have hosc' := (h.cpu other).evict osc' way' hcontrol
    have hnot : ¬ m.cache.contains layout osc' way := by
      intro hcontains
      obtain rfl := hholds.contains hlayout hcontains
      obtain rfl := h.disjoint other cpu _ hosc' ((h.cpu cpu).active _ hholds.preloaded)
      exact hl rfl
    obtain ⟨hlocked, hstart, -, hinUse⟩ := freeOSC_way layout m.cache osc' way
    refine hholds.set (freeOSC_count ..) ⟨hlocked, hstart, hinUse hnot⟩ fun hcpu => ?_
    subst hcpu
    refine ⟨List.mem_filter.mpr ⟨hholds.preloaded, ?_⟩, by simp [hcontrol, Control.round]⟩
    have hne : osc ≠ osc' := by
      rintro rfl
      exact hl rfl
    simpa using hne

/-- Only its holder changes what is on record of a way. -/
theorem Holds.record_eq (hlayout : layout.Disjoint) (h : Exclusive layout m) {l : SharedLabel C O}
    (hholds : Holds layout m.cache (m.cpus cpu) osc dataStart way)
    (hstep : SharedStep layout m l m') (hstart : l ≠ .setDataStart cpu osc dataStart way)
    (hosc : l ≠ .setOsc cpu osc dataStart way) (hfree : l ≠ .freeOSC cpu osc) :
    (m'.cache.mCacheWays way).record = (m.cache.mCacheWays way).record := by
  cases hstep with
  | activate | preloadSingleOSC | skipPreload | prefetchDataToWay | preloaded
  | lookupAndEvictOSC => rfl
  | @getLRUWay other osc' oscStart skipPreload way' c hcontrol hlt hway =>
    have hhands := getLRUWay_some hway
    obtain ⟨hosc', hle⟩ := (h.cpu other).preload osc' oscStart skipPreload hcontrol
    rcases eq_or_ne way way' with rfl | hne
    · obtain ⟨rfl, rfl, rfl⟩ := hhands.holder hlayout h hosc' hle hlt hholds
      rcases hhands.cases with ⟨hfound, hstart', -⟩ | ⟨-, -, hfree', -⟩
      · obtain ⟨-, hstart₀⟩ := findWay_eq_some hfound
        simp only [CacheWayState.record, SharedState.goto_cache, hstart', hstart₀, hhands.osc,
          hhands.inUse, hholds.inUse]
      · rw [hholds.inUse] at hfree'
        cases hfree'
    · exact CacheWayState.record_eq_of_unaged_eq (hhands.other way hne).1
  | @noWay other osc' oscStart skipPreload c hcontrol _ hway =>
    exact CacheWayState.record_eq_of_unaged_eq ((getLRUWay_none hway).way way)
  | @setDataStart other osc' oscStart skipPreload way' hcontrol =>
    have hne : way ≠ way' := by
      rintro rfl
      obtain ⟨hother, -⟩ := (h.cpu other).holds osc' oscStart way false (by rw [hcontrol]; rfl)
      obtain ⟨rfl, rfl, rfl⟩ := h.holder_unique hlayout hholds hother
      exact hstart rfl
    have hsame : (m.cache.setDataStart way' oscStart).mCacheWays way = m.cache.mCacheWays way :=
      modifyWay_of_ne hne
    simp only [SharedState.goto_cache, hsame]
  | @setDataEnd other osc' oscStart skipPreload way' hcontrol =>
    rcases eq_or_ne way way' with rfl | hne
    · simp only [SharedState.goto_cache, setDataEnd, modifyWay_self]
      rfl
    · simp only [SharedState.goto_cache, setDataEnd, modifyWay_of_ne hne]
  | @setOsc other osc' oscStart skipPreload way' hcontrol =>
    have hne : way ≠ way' := by
      rintro rfl
      obtain ⟨hother, -⟩ := (h.cpu other).holds osc' oscStart way true (by rw [hcontrol]; rfl)
      obtain ⟨rfl, rfl, rfl⟩ := h.holder_unique hlayout hholds hother
      exact hosc rfl
    have hsame : (m.cache.setOsc way' osc').mCacheWays way = m.cache.mCacheWays way :=
      modifyWay_of_ne hne
    simp only [SharedState.goto_cache, hsame]
  | @evictCacheWay other osc' way' hcontrol _ =>
    have hsame : (evictOne layout osc' m.cache way').mCacheWays = m.cache.mCacheWays := by
      rw [evictOne]
      split <;> rfl
    simp only [SharedState.goto_cache, hsame]
  | @freeOSC other osc' way' hcontrol _ =>
    have hactive := (h.cpu other).evict osc' way' hcontrol
    have hnot : ¬ m.cache.contains layout osc' way := by
      intro hcontains
      obtain rfl := hholds.contains hlayout hcontains
      obtain rfl := h.disjoint other cpu _ hactive ((h.cpu cpu).active _ hholds.preloaded)
      exact hfree rfl
    obtain ⟨-, hstart', hosc', hinUse⟩ := freeOSC_way layout m.cache osc' way
    simp only [CacheWayState.record, SharedState.set_cache, hstart', hosc', hinUse hnot]

/-- A way is handed out again only for the part that its holder holds it for. -/
theorem Holds.handedOut (hlayout : layout.Disjoint) (h : Exclusive layout m) {other : C} {osc' : O}
    {a : Nat} (hholds : Holds layout m.cache (m.cpus cpu) osc dataStart way)
    (hstep : SharedStep layout m (.getLRUWay other osc' a way) m') :
    other = cpu ∧ osc' = osc ∧ a = dataStart := by
  cases hstep with
  | @getLRUWay _ _ _ skipPreload _ c hcontrol hlt hway =>
    obtain ⟨hosc', hle⟩ := (h.cpu other).preload osc' a skipPreload hcontrol
    obtain ⟨hcpu, hosc, ha⟩ := (getLRUWay_some hway).holder hlayout h hosc' hle hlt hholds
    exact ⟨hcpu.symm, hosc.symm, ha.symm⟩

/-- A way that has been handed out is held. -/
theorem Exclusive.holds_of_getLRUWay (hlayout : layout.Disjoint) (h : Exclusive layout m)
    (hstep : SharedStep layout m (.getLRUWay cpu osc dataStart way) m') :
    Holds layout m'.cache (m'.cpus cpu) osc dataStart way ∧
      (m.cache.mCacheWays way).permanentLocked = false := by
  have hinv := h.step hlayout hstep
  cases hstep with
  | @getLRUWay _ _ _ skipPreload _ c hcontrol hlt hway =>
    have hround : ((m.goto c cpu (.handedOut osc dataStart skipPreload way)).cpus cpu).control.round =
        some (osc, dataStart, way, false) := by
      simp [Control.round]
    have hholds := ((hinv.cpu cpu).holds osc dataStart way false hround).1
    exact ⟨hholds, (getLRUWay_some hway).locked ▸ hholds.unlocked⟩

/-- Nothing is active when the scheduler starts. -/
def SharedState.initial (c : GenericCacheManagement O) : SharedState C O :=
  ⟨c, fun _ => ⟨[], [], .idle⟩⟩

omit [DecidableEq C] [DecidableEq O] in
theorem Exclusive.initial (hboot : Booted layout c) :
    Exclusive layout (SharedState.initial (C := C) c) := by
  have hstart : ∀ v, (c.mCacheWays v).dataStart = 0 := fun v => (hboot.unused v).dataStart
  refine ⟨by simp [SharedState.initial], fun cpu => ?_, fun v _ => hstart v, ?_,
    by simp [SharedState.initial, Control.round]⟩
  · exact .of_no_round (by simp [SharedState.initial]) (by simp [SharedState.initial])
      (by simp [SharedState.initial]) rfl
  · intro v _ v' _ hne
    exact absurd (hstart v) hne

theorem Exclusive.of_run (hlayout : layout.Disjoint) {ls : List (SharedLabel C O)}
    (h : Exclusive layout m) (hrun : Run (SharedStep layout) m ls m') : Exclusive layout m' :=
  hrun.invariant h fun h hstep => h.step hlayout hstep

theorem Holds.of_run (hlayout : layout.Disjoint) {ls : List (SharedLabel C O)}
    (h : Exclusive layout m) (hholds : Holds layout m.cache (m.cpus cpu) osc dataStart way)
    (hrun : Run (SharedStep layout) m ls m') (hls : .freeOSC cpu osc ∉ ls) :
    Holds layout m'.cache (m'.cpus cpu) osc dataStart way := by
  induction hrun with
  | nil => exact hholds
  | @snoc ls m₁ l m₂ hrun hstep ih =>
    simp only [List.mem_append, List.mem_singleton, not_or] at hls
    exact (ih hls.1).step hlayout (h.of_run hlayout hrun) hstep (Ne.symm hls.2)

/-- From the moment a way is handed out to a CPU for a part of a component until that CPU evicts the
component, the way is handed out for nothing else, and only that CPU changes what is on record of
it. A locked way is never handed out, and no part is on record twice. -/
theorem wayExclusivity (hlayout : layout.Disjoint) (hboot : Booted layout c)
    {ls : List (SharedLabel C O)} (hrun : Run (SharedStep layout) (.initial c) ls m) :
    (∀ xs ys cpu osc dataStart way, ls = xs ++ .getLRUWay cpu osc dataStart way :: ys →
      .freeOSC cpu osc ∉ ys → ∀ l m', SharedStep layout m l m' →
        (∀ cpu' osc' a, l = .getLRUWay cpu' osc' a way →
          cpu' = cpu ∧ osc' = osc ∧ a = dataStart) ∧
        (l ≠ .setDataStart cpu osc dataStart way → l ≠ .setOsc cpu osc dataStart way →
          l ≠ .freeOSC cpu osc →
          (m'.cache.mCacheWays way).record = (m.cache.mCacheWays way).record)) ∧
      (∀ cpu osc dataStart way m', SharedStep layout m (.getLRUWay cpu osc dataStart way) m' →
        (m.cache.mCacheWays way).permanentLocked = false) ∧
      ∀ v < m.cache.mCacheWayCount, ∀ v' < m.cache.mCacheWayCount,
        (m.cache.mCacheWays v).dataStart ≠ 0 →
        (m.cache.mCacheWays v').dataStart = (m.cache.mCacheWays v).dataStart → v' = v := by
  have hinit : Exclusive layout (.initial (C := C) c) := .initial hboot
  have h := hinit.of_run hlayout hrun
  refine ⟨?_, fun cpu osc a way m' hstep => (h.holds_of_getLRUWay hlayout hstep).2, h.unique⟩
  rintro xs ys cpu osc a way rfl hys l m' hstep
  obtain ⟨m₁, hrun₁, hrun₂⟩ := run_append_iff.mp hrun
  obtain ⟨m₂, hstep₁, hrun₂⟩ := run_cons_iff.mp hrun₂
  have h₁ := hinit.of_run hlayout hrun₁
  obtain ⟨hholds, -⟩ := h₁.holds_of_getLRUWay hlayout hstep₁
  have hholds := hholds.of_run hlayout (h₁.step hlayout hstep₁) hrun₂ hys
  refine ⟨fun cpu' osc' a' hl => ?_, hholds.record_eq hlayout h hstep⟩
  subst hl
  exact hholds.handedOut hlayout h hstep

/-- Two components of one page, on a machine with ways of eight pages. -/
def twoPages : MemoryLayout Bool where
  getOSCStart osc := if osc then 0x1000 else 0x3000
  getOSCTextEnd osc := if osc then 0x1800 else 0x3800
  getOSCEnd osc := if osc then 0x2000 else 0x4000
  getCacheWaySize := 0x8000
  four_le := four_le_way

theorem twoPages_disjoint : twoPages.Disjoint where
  start_pos osc := by cases osc <;> decide
  eq_of_mem {osc osc' a} h₁ h₂ h₃ h₄ := by
    cases osc <;> cases osc' <;> first | rfl | (simp [twoPages] at h₁ h₂ h₃ h₄; omega)

/-- Two CPUs preload a component each. The first is given way 0, the second way 1, which it prefetches
to. When it enters this on record, way 0 is left as it is, and nobody else is given way 0. -/
theorem wayExclusivity_twoPages : ∃ (m m' : SharedState Bool Bool) (ls : _),
    Run (SharedStep twoPages) (.initial (new 2)) ls m ∧
    .getLRUWay true true 0x1000 0 ∈ ls ∧
    SharedStep twoPages m (.setDataStart false false 0x3000 1) m' ∧
    (m'.cache.mCacheWays 0).record = (m.cache.mCacheWays 0).record ∧
    ∀ cpu osc dataStart m'', SharedStep twoPages m (.getLRUWay cpu osc dataStart 0) m'' →
      cpu = true ∧ dataStart = 0x1000 := by
  have hrun₁ : Run (SharedStep twoPages) (.initial (new 2)) [.activate true [true]] _ :=
    .single (.activate rfl (by simp [SharedState.initial]) (by simp [SharedState.initial]))
  have hrun₂ := hrun₁.snoc (l := .activate false [false]) (.activate rfl (by decide) (by decide))
  have hrun₃ := hrun₂.snoc (l := .preloadSingleOSC true true) (.preloadSingleOSC rfl (by decide))
  have hrun₄ := hrun₃.snoc (l := .preloadSingleOSC false false) (.preloadSingleOSC rfl (by decide))
  have hrun₅ := hrun₄.snoc (l := .getLRUWay true true 0x1000 0) (.getLRUWay rfl (by decide) rfl)
  have hrun₆ := hrun₅.snoc (l := .getLRUWay false false 0x3000 1) (.getLRUWay rfl (by decide) rfl)
  have hrun₇ := hrun₆.snoc (l := .prefetchDataToWay false 1) (.prefetchDataToWay rfl rfl rfl)
  obtain ⟨hexclusive, -⟩ := wayExclusivity twoPages_disjoint (.new 2) hrun₇
  have hzero := hexclusive
    [.activate true [true], .activate false [false], .preloadSingleOSC true true,
      .preloadSingleOSC false false]
    [.getLRUWay false false 0x3000 1, .prefetchDataToWay false 1] true true 0x1000 0 rfl (by simp)
  refine ⟨_, _, _, hrun₇, by simp, .setDataStart rfl, ?_, fun cpu osc dataStart m'' hstep => ?_⟩
  · exact (hzero _ _ (.setDataStart rfl)).2 (by simp) (by simp) (by simp)
  · obtain ⟨hcpu, -, hstart⟩ := (hzero _ _ hstep).1 cpu osc dataStart rfl
    exact ⟨hcpu, hstart⟩

end GenericCacheManagement
end CyPhOS
