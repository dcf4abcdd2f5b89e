import CyPhOS.CacheManagement.PL310CacheManagement

/-! # What the ways of the PL310 hold

The cache management keeps the last operation on each way. `Inv` says that this is what the way holds:
a way that was prefetched to has the lines of the range and no others, and a way that was evicted, or
never used, is empty. A way is unlocked only while the CPU that has `pPL310Lock` prefetches to it. As
long as the accesses meanwhile are to what is in the cache for good, or in a part that has been
prefetched and recorded (`Allowed`), they do not miss, so that nothing but the lines of the range comes
into the way. So every step keeps the invariant (`Inv.step`).
-/

namespace CyPhOS

open Transition CacheLines WayCache

namespace PL310CacheManagement

open GenericCacheManagement (SharedState SharedLabel SharedStep PrefetchInv chunks)

variable {C O : Type} [DecidableEq C] [DecidableEq O] {config : LockdownConfig C}
  {layout : MemoryLayout O} {c : GenericCacheManagement O}
  {contents₀ contents : Nat → Nat → Option Nat}
  {s s' : SharedState C O} {m m' : State C O} {cpu : C} {call : Call} {stage stage' : Stage}
  {way line start end_ textEnd : Nat}

/-- The cache management never touches the way: it holds critical data, or it is not its way. -/
def Kept (c : GenericCacheManagement O) (way : Nat) : Prop :=
  c.mCacheWayCount ≤ way ∨ (c.mCacheWays way).permanentLocked = true

/-- The line is in the cache for good. -/
def KeptLine (layout : MemoryLayout O) (c : GenericCacheManagement O)
    (contents : Nat → Nat → Option Nat) (line : Nat) : Prop :=
  ∃ way, Kept c way ∧ Has (lineIndex layout) contents way line

/-- The registers that have been gone through lock the way, or do not, and what has been read of the
next one is still there. -/
def Stage.Registers (offsets : List Nat) (lockdownD lockdownI : Nat → BitVec 32) (way : Nat) :
    Stage → Prop :=
  let Done (lockdown : Bool) (todo : List Nat) : Prop := ∀ offset ∈ offsets, offset ∉ todo →
    (lockdownD offset).getLsbD way = lockdown ∧ (lockdownI offset).getLsbD way = lockdown
  fun
  | .lock => True
  | .readD lockdown todo => Done lockdown todo
  | .readI lockdown offset todo d => Done lockdown (offset :: todo) ∧ d = lockdownD offset
  | .writeD lockdown offset todo d i =>
    Done lockdown (offset :: todo) ∧ d = lockdownD offset ∧ i = lockdownI offset
  | .writeI lockdown offset todo i => Done lockdown (offset :: todo) ∧
    (lockdownD offset).getLsbD way = lockdown ∧ i = lockdownI offset
  | .prefetch _ => Done false []

/-- The lines that are still to be touched. -/
def Stage.todo (call : Call) : Stage → List Nat
  | .lock => lines 32 call.start (call.end_ + 1)
  | .prefetch touched => touched.map Prod.fst
  | .readD lockdown _ | .readI lockdown _ _ _ | .writeD lockdown _ _ _ _ | .writeI lockdown _ _ _ =>
    if lockdown then [] else lines 32 call.start (call.end_ + 1)

/-- A call of `prefetchDataToWay` that is under way. -/
structure CallInv (config : LockdownConfig C) (layout : MemoryLayout O) (kept : Nat → Prop)
    (m : State C O) (cpu : C) (call : Call) (stage : Stage) : Prop where
  control : ∃ osc, (m.shared.cpus cpu).control = .prefetched osc call.start false call.way
  last : m.shared.cache.lastOperation call.way =
    some (.prefetchDataToWay call.start call.end_ call.textEnd)
  registers : stage.Registers config.offsets m.lockdownD m.lockdownI call.way
  loading : Loading (lineIndex layout) kept (Touched call.start call.end_) m.contents call.way
    (stage.todo call)
  touched : ∀ touched, stage = .prefetch touched → (touched.map Prod.fst).Nodup ∧
    ∀ line ∈ touched.map Prod.fst, Touched call.start call.end_ line

/-- The invariant of the runs from `c` and `contents`. -/
structure Inv (config : LockdownConfig C) (layout : MemoryLayout O) (c : GenericCacheManagement O)
    (contents : Nat → Nat → Option Nat) (m : State C O) : Prop where
  prefetch : PrefetchInv layout m.shared
  count : m.shared.cache.mCacheWayCount = c.mCacheWayCount
  locked : ∀ way, (m.shared.cache.mCacheWays way).permanentLocked =
    (c.mCacheWays way).permanentLocked
  kept : ∀ way, Kept c way → m.contents way = contents way
  call : ∀ cpu call stage, m.port cpu = some (call, stage) →
    CallInv config layout (KeptLine layout c contents) m cpu call stage
  lock : ∀ cpu, m.pPL310Lock = some cpu ↔
    ∃ call stage, m.port cpu = some (call, stage) ∧ stage ≠ .lock
  closed : ∀ way < PL310_CACHE_WAYS, (∀ cpu call stage, m.port cpu = some (call, stage) →
    stage ≠ .lock → call.way ≠ way) → ∀ cpu kind, (m.register config cpu kind).getLsbD way = true
  loaded : ∀ way, ¬ Kept c way → ∀ start end_ textEnd,
    m.shared.cache.lastOperation way = some (.prefetchDataToWay start end_ textEnd) →
    (∀ cpu call stage, m.port cpu = some (call, stage) → call.way ≠ way) →
    Loading (lineIndex layout) (KeptLine layout c contents) (Touched start end_) m.contents way []
  empty : ∀ way, ¬ Kept c way → (∀ start end_ textEnd,
    m.shared.cache.lastOperation way ≠ some (.prefetchDataToWay start end_ textEnd)) →
    ∀ i, m.contents way i = none

/-! ## One step -/

/-- The port is called for ways of the cache management only. -/
theorem way_of_operation {l : SharedLabel C O} {operation : CacheOperation}
    (hlayout : layout.Disjoint) (hex : GenericCacheManagement.Exclusive layout s) (hstep : SharedStep layout s l s')
    (h : s.operation layout l = some (way, operation)) : ¬ Kept s.cache way := by
  suffices hway : way < s.cache.mCacheWayCount ∧
      (s.cache.mCacheWays way).permanentLocked = false by
    rintro (hle | hlocked)
    · omega
    · rw [hway.2] at hlocked
      cases hlocked
  cases hstep with
  | activate | preloadSingleOSC | noWay | setDataStart | setDataEnd | setOsc | preloaded
  | lookupAndEvictOSC | freeOSC => cases h
  | skipPreload hfrom hskip => simp [SharedState.operation, hfrom, hskip] at h
  | @getLRUWay cpu osc oscStart skipPreload v s hfrom _ hcall =>
    have hhands := GenericCacheManagement.getLRUWay_some hcall
    simp only [SharedState.operation] at h
    split at h
    · next hevicts =>
      simp only [Option.some.injEq, Prod.mk.injEq] at h
      obtain ⟨rfl, -⟩ := h
      rcases hhands.cases with ⟨hfound, -⟩ | ⟨-, hunlocked, -⟩
      · rw [hevicts.1] at hfound
        cases hfound
      · exact ⟨hhands.lt, hunlocked⟩
    · cases h
  | @prefetchDataToWay cpu osc oscStart skipPreload v textEnd hfrom hskip _ =>
    simp only [SharedState.operation, hfrom, hskip, Bool.false_eq_true, if_false, Option.some.injEq,
      Prod.mk.injEq] at h
    obtain ⟨rfl, -⟩ := h
    obtain ⟨hholds, -⟩ := (hex.cpu cpu).holds osc oscStart v false (by rw [hfrom]; rfl)
    exact ⟨hholds.lt, hholds.unlocked⟩
  | @evictCacheWay cpu osc v hfrom hlt =>
    simp only [SharedState.operation, hfrom] at h
    split at h
    · next hcontains =>
      simp only [Option.some.injEq, Prod.mk.injEq] at h
      obtain ⟨rfl, -⟩ := h
      refine ⟨hlt, ?_⟩
      by_contra hlocked
      have hzero := hex.locked v (by simpa using hlocked)
      have hpos := hlayout.start_pos osc
      have hle := hcontains.1
      omega
    · cases h

omit [DecidableEq O] in
theorem Kept.congr {c' : GenericCacheManagement O} (hcount : c'.mCacheWayCount = c.mCacheWayCount)
    (hlocked : ∀ way, (c'.mCacheWays way).permanentLocked = (c.mCacheWays way).permanentLocked) :
    Kept c' way ↔ Kept c way := by
  rw [Kept, Kept, hcount, hlocked]

/-- The other calls go on when a CPU that is not in the port makes a step. -/
theorem CallInv.shared {l : SharedLabel C O} {kept : Nat → Prop} (hlayout : layout.Disjoint)
    (hinv : PrefetchInv layout m.shared) (h : CallInv config layout kept m cpu call stage)
    (hstep : SharedStep layout m.shared l s) (hne : cpu ≠ l.caller) :
    (∃ osc, (s.cpus cpu).control = .prefetched osc call.start false call.way) ∧
      s.cache.lastOperation call.way =
        some (.prefetchDataToWay call.start call.end_ call.textEnd) := by
  obtain ⟨osc, hcontrol⟩ := h.control
  have hex := hinv.use.exclusive
  obtain ⟨hholds, -⟩ := (hex.cpu cpu).holds osc call.start call.way false (by rw [hcontrol]; rfl)
  refine ⟨⟨osc, (hstep.cpus_of_ne hne).symm ▸ hcontrol⟩,
    h.last ▸ hholds.operation_eq hlayout hex hstep ?_ ?_⟩ <;>
  · rintro rfl
    exact hne rfl

omit [DecidableEq C] [DecidableEq O] in
/-- Two calls are for different ways. -/
theorem CallInv.way_ne {kept : Nat → Prop} {cpu' : C} {call' : Call} {stage' : Stage}
    (hinv : PrefetchInv layout m.shared) (h : CallInv config layout kept m cpu call stage)
    (h' : CallInv config layout kept m cpu' call' stage') (hne : cpu' ≠ cpu) :
    call'.way ≠ call.way := by
  obtain ⟨osc, hcontrol⟩ := h.control
  obtain ⟨osc', hcontrol'⟩ := h'.control
  intro hway
  refine hne (hinv.use.exclusive.round cpu' cpu osc' osc call'.start call.start call.way false false
    ?_ ?_)
  · rw [hcontrol', hway]
    rfl
  · rw [hcontrol]
    rfl

section
variable {l : SharedLabel C O}

omit [DecidableEq C] [DecidableEq O] in
/-- A CPU that is in the port does not make the step. -/
theorem ne_caller (hout : m.port l.caller = none) (hport : m.port cpu = some (call, stage)) :
    cpu ≠ l.caller := by
  rintro rfl
  rw [hout] at hport
  cases hport

/-- A step of the cache management that does not call the port. -/
theorem Inv.shared (hlayout : layout.Disjoint) (h : Inv config layout c contents₀ m)
    (hstep : SharedStep layout m.shared l s) (hout : m.port l.caller = none)
    (hnone : m.shared.operation layout l = none) :
    Inv config layout c contents₀ { m with shared := s } := by
  have hlast : s.cache.lastOperation = m.shared.cache.lastOperation := by
    rw [hstep.lastOperation, hnone, GenericCacheManagement.performed]
  refine ⟨h.prefetch.step hlayout hstep, hstep.locks.1.trans h.count,
    fun way => (hstep.locks.2 way).trans (h.locked way), h.kept, fun cpu call stage hport => ?_,
    h.lock, h.closed, hlast ▸ h.loaded, hlast ▸ h.empty⟩
  have hcall := h.call cpu call stage hport
  obtain ⟨hcontrol, hlast⟩ := hcall.shared hlayout h.prefetch hstep (ne_caller hout hport)
  exact ⟨hcontrol, hlast, hcall.registers, hcall.loading, hcall.touched⟩

/-- The step evicts a way. -/
theorem Inv.evictCacheWay (hlayout : layout.Disjoint) (h : Inv config layout c contents₀ m)
    (hstep : SharedStep layout m.shared l s) (hout : m.port l.caller = none)
    (hevict : m.shared.operation layout l = some (way, .evictCacheWay)) :
    Inv config layout c contents₀
      { m with shared := s, contents := invalidate m.contents way } := by
  have hlast : ∀ v ≠ way, s.cache.lastOperation v = m.shared.cache.lastOperation v := by
    intro v hv
    rw [hstep.lastOperation, hevict, GenericCacheManagement.performed, Function.update_of_ne hv]
  have hevicted : s.cache.lastOperation way = some .evictCacheWay := by
    rw [hstep.lastOperation, hevict, GenericCacheManagement.performed, Function.update_self]
  have hway : ¬ Kept c way := by
    rw [← Kept.congr h.count h.locked]
    exact way_of_operation hlayout h.prefetch.use.exclusive hstep hevict
  refine ⟨h.prefetch.step hlayout hstep, hstep.locks.1.trans h.count,
    fun way => (hstep.locks.2 way).trans (h.locked way), fun v hv => ?_,
    fun cpu call stage hport => ?_, h.lock, h.closed, fun v hv start end_ textEnd hop hnot => ?_,
    fun v hv hop i => ?_⟩
  · refine (invalidate_of_ne ?_).trans (h.kept v hv)
    rintro rfl
    exact hway hv
  · have hcall := h.call cpu call stage hport
    obtain ⟨hcontrol, hcalled⟩ := hcall.shared hlayout h.prefetch hstep (ne_caller hout hport)
    have hne : call.way ≠ way := by
      intro heq
      rw [heq, hevicted] at hcalled
      cases hcalled
    exact ⟨hcontrol, hcalled, hcall.registers, hcall.loading.of_eq (invalidate_of_ne hne),
      hcall.touched⟩
  · rcases eq_or_ne v way with rfl | hne
    · rw [hevicted] at hop
      cases hop
    · rw [hlast v hne] at hop
      exact (h.loaded v hv start end_ textEnd hop hnot).of_eq (invalidate_of_ne hne)
  · rcases eq_or_ne v way with rfl | hne
    · exact congrFun invalidate_self i
    · exact (congrFun (invalidate_of_ne hne) i).trans (h.empty v hv (hlast v hne ▸ hop) i)

omit [DecidableEq C] [DecidableEq O] in
/-- A way that has been handed out and does not record its part was not prefetched to. -/
theorem not_prefetched {osc : O} (hlayout : layout.Disjoint) (h : PrefetchInv layout s)
    (hcontrol : (s.cpus cpu).control = .handedOut osc start false way)
    (hne : (s.cache.mCacheWays way).dataStart ≠ start) {start' end' textEnd' : Nat} :
    s.cache.lastOperation way ≠ some (.prefetchDataToWay start' end' textEnd') := by
  have hex := h.use.exclusive
  obtain ⟨hholds, -⟩ := (hex.cpu cpu).holds osc start way false (by rw [hcontrol]; rfl)
  have hzero := (hholds.dataStart.resolve_left hne).1
  intro hlast
  obtain ⟨⟨osc', hchunk⟩, hstart | ⟨cpu', osc₁, hcontrol'⟩⟩ :=
    h.way way hholds.lt hholds.unlocked start' end' textEnd' hlast
  · have hpos := (hlayout.start_pos osc').trans_le (GenericCacheManagement.le_of_mem_chunks hchunk)
    dsimp only at hpos
    omega
  · obtain rfl := hex.round cpu' cpu osc₁ osc start' start way false false
      (by rw [hcontrol']; rfl) (by rw [hcontrol]; rfl)
    rw [hcontrol] at hcontrol'
    cases hcontrol'

/-- A CPU calls for a prefetch to a way, which is empty. -/
theorem Inv.prefetchDataToWay (hlayout : layout.Disjoint) (hlines : layout.LineAligned)
    (h : Inv config layout c contents₀ m) (hstep : SharedStep layout m.shared l s)
    (hout : m.port l.caller = none) (hprefetch : m.shared.operation layout l =
      some (way, .prefetchDataToWay start end_ textEnd)) :
    Inv config layout c contents₀
      ({ m with shared := s }.goto l.caller ⟨start, end_, textEnd, way⟩ .lock) := by
  have hex := h.prefetch.use.exclusive
  have hlast : ∀ v ≠ way, s.cache.lastOperation v = m.shared.cache.lastOperation v := by
    intro v hv
    rw [hstep.lastOperation, hprefetch, GenericCacheManagement.performed, Function.update_of_ne hv]
  have hcalled : s.cache.lastOperation way = some (.prefetchDataToWay start end_ textEnd) := by
    rw [hstep.lastOperation, hprefetch, GenericCacheManagement.performed, Function.update_self]
  have hway : ¬ Kept c way := by
    rw [← Kept.congr h.count h.locked]
    exact way_of_operation hlayout hex hstep hprefetch
  obtain ⟨osc, hcontrol, hcontrol', hne, hend⟩ := hstep.control_of_prefetch hprefetch
  have hempty := h.empty way hway fun _ _ _ => not_prefetched hlayout h.prefetch hcontrol hne
  obtain ⟨hholds, -⟩ := (hex.cpu l.caller).holds osc start way false (by rw [hcontrol]; rfl)
  have hstart : 32 ∣ start := by
    have hchunk := h.prefetch.use.mem_chunks (by rw [hcontrol]; rfl) hholds.lt_end
    exact (chunk_spec hlines.way (hlines.start osc) hchunk).1
  refine ⟨h.prefetch.step hlayout hstep, hstep.locks.1.trans h.count,
    fun way => (hstep.locks.2 way).trans (h.locked way), h.kept, fun cpu call stage hport => ?_,
    fun cpu => (h.lock cpu).trans ?_, fun v hv hnot => h.closed v hv ?_,
    fun v hv start' end' textEnd' hop hnot => ?_, fun v hv hop => ?_⟩
  · rcases State.goto_port_eq_some.mp hport with ⟨rfl, rfl, rfl⟩ | ⟨hcpu, hport⟩
    · refine ⟨⟨osc, hcontrol'⟩, hcalled, trivial, .of_empty hempty fun line hline => ?_, by simp⟩
      exact (mem_lines_iff hstart).mpr hline
    · have hcall := h.call cpu call stage hport
      obtain ⟨hcontrol, hlast⟩ := hcall.shared hlayout h.prefetch hstep hcpu
      exact ⟨hcontrol, hlast, hcall.registers, hcall.loading, hcall.touched⟩
  · refine exists_congr fun call => exists_congr fun stage => and_congr_left fun hstage => ?_
    rw [State.goto_port_eq_some]
    refine ⟨fun hport => .inr ⟨ne_caller hout hport, hport⟩, ?_⟩
    rintro (⟨-, -, rfl⟩ | ⟨-, hport⟩)
    · exact absurd rfl hstage
    · exact hport
  · intro cpu call stage hport hstage
    exact hnot cpu call stage (State.goto_port_eq_some.mpr (.inr ⟨ne_caller hout hport, hport⟩)) hstage
  · have hv' : v ≠ way := by
      rintro rfl
      exact hnot l.caller _ _ (State.goto_port_eq_some.mpr (.inl ⟨rfl, rfl, rfl⟩)) rfl
    refine h.loaded v hv start' end' textEnd' ((hlast v hv').symm.trans hop)
      fun cpu call stage hport => hnot cpu call stage (State.goto_port_eq_some.mpr (.inr ⟨ne_caller hout hport, hport⟩))
  · rcases eq_or_ne v way with rfl | hne
    · exact hempty
    · exact h.empty v hv (hlast v hne ▸ hop)

end

section
variable (h : Inv config layout c contents₀ m) (hport : m.port cpu = some (call, stage))
include h hport

omit [DecidableEq C] [DecidableEq O] in
theorem Inv.not_kept : ¬ Kept c call.way := by
  obtain ⟨osc, hcontrol⟩ := (h.call cpu call stage hport).control
  obtain ⟨hholds, -⟩ := (h.prefetch.use.exclusive.cpu cpu).holds osc call.start call.way false
    (by rw [hcontrol]; rfl)
  rw [← Kept.congr h.count h.locked]
  rintro (hle | hlocked)
  · have := hholds.lt
    omega
  · rw [hholds.unlocked] at hlocked
    cases hlocked

omit [DecidableEq C] [DecidableEq O] in
/-- Only the CPU that has the lock is past it. -/
theorem Inv.stage_of_ne (hactive : stage ≠ .lock) {other : C} {call' : Call} {stage' : Stage}
    (hne : other ≠ cpu) (hother : m.port other = some (call', stage')) : stage' = .lock := by
  by_contra hstage
  have hlock := (h.lock cpu).mpr ⟨call, stage, hport, hactive⟩
  have hlock' := (h.lock other).mpr ⟨call', stage', hother, hstage⟩
  rw [hlock] at hlock'
  exact hne (Option.some.inj hlock').symm

omit [DecidableEq O] in
/-- The CPU that has the lock goes on with its call. -/
theorem Inv.goto (hactive : stage ≠ .lock) (hactive' : stage' ≠ .lock)
    {lockdownD lockdownI : Nat → BitVec 32}
    (hregisters : stage'.Registers config.offsets lockdownD lockdownI call.way)
    (hothers : ∀ offset, ∀ v < PL310_CACHE_WAYS, v ≠ call.way →
      (lockdownD offset).getLsbD v = (m.lockdownD offset).getLsbD v ∧
        (lockdownI offset).getLsbD v = (m.lockdownI offset).getLsbD v)
    (hcontents : ∀ v ≠ call.way, contents v = m.contents v)
    (hloading : Loading (lineIndex layout) (KeptLine layout c contents₀)
      (Touched call.start call.end_) contents call.way (stage'.todo call))
    (htouched : ∀ touched, stage' = .prefetch touched → (touched.map Prod.fst).Nodup ∧
      ∀ line ∈ touched.map Prod.fst, Touched call.start call.end_ line) :
    Inv config layout c contents₀ ({ m with lockdownD, lockdownI, contents }.goto cpu call stage') := by
  have hcall := h.call cpu call stage hport
  refine ⟨h.prefetch, h.count, h.locked, fun v hv => ?_, fun other call₁ stage₁ hother => ?_,
    fun other => (h.lock other).trans ?_, fun v hv hnot other kind => ?_,
    fun v hv start end_ textEnd hop hnot => ?_, fun v hv hop i => ?_⟩
  · refine (hcontents v ?_).trans (h.kept v hv)
    rintro rfl
    exact h.not_kept hport hv
  · rcases State.goto_port_eq_some.mp hother with ⟨rfl, rfl, rfl⟩ | ⟨hne, hother⟩
    · exact ⟨hcall.control, hcall.last, hregisters, hloading, htouched⟩
    · obtain rfl := h.stage_of_ne hport hactive hne hother
      have hcall' := h.call other call₁ .lock hother
      exact ⟨hcall'.control, hcall'.last, trivial,
        hcall'.loading.of_eq (hcontents _ (hcall.way_ne h.prefetch hcall' hne)), hcall'.touched⟩
  · simp only [State.goto_port_eq_some]
    constructor
    · rintro ⟨call₁, stage₁, hother, hstage⟩
      rcases eq_or_ne other cpu with rfl | hne
      · exact ⟨call, stage', .inl ⟨rfl, rfl, rfl⟩, hactive'⟩
      · exact ⟨call₁, stage₁, .inr ⟨hne, hother⟩, hstage⟩
    · rintro ⟨call₁, stage₁, ⟨rfl, -, -⟩ | ⟨-, hother⟩, hstage⟩
      · exact ⟨call, stage, hport, hactive⟩
      · exact ⟨call₁, stage₁, hother, hstage⟩
  · have hway : call.way ≠ v :=
      hnot cpu call stage' (State.goto_port_eq_some.mpr (.inl ⟨rfl, rfl, rfl⟩)) hactive'
    have hold := h.closed v hv (fun other call₁ stage₁ hother hstage => by
      rcases eq_or_ne other cpu with rfl | hne
      · rw [hport] at hother
        cases hother
        exact hway
      · exact absurd (h.stage_of_ne hport hactive hne hother) hstage) other kind
    obtain ⟨hd, hi⟩ := hothers (config.register other) v hv hway.symm
    cases kind with
    | data => exact hd.trans hold
    | instruction => exact hi.trans hold
  · have hway : call.way ≠ v :=
      hnot cpu call stage' (State.goto_port_eq_some.mpr (.inl ⟨rfl, rfl, rfl⟩))
    refine (h.loaded v hv start end_ textEnd hop fun other call₁ stage₁ hother => ?_).of_eq
      (hcontents v hway.symm)
    rcases eq_or_ne other cpu with rfl | hne
    · rw [hport] at hother
      cases hother
      exact hway
    · exact hnot other call₁ stage₁ (State.goto_port_eq_some.mpr (.inr ⟨hne, hother⟩))
  · have hway : v ≠ call.way := by
      rintro rfl
      exact hop _ _ _ hcall.last
    exact (congrFun (hcontents v hway) i).trans (h.empty v hv hop i)

end

omit [DecidableEq O] in
/-- A CPU takes the lock. -/
theorem Inv.takeLock (h : Inv config layout c contents₀ m) (hport : m.port cpu = some (call, .lock))
    (hfree : m.pPL310Lock = none) : Inv config layout c contents₀
      ({ m with pPL310Lock := some cpu }.goto cpu call (.readD false config.offsets)) := by
  have hcall := h.call cpu call .lock hport
  have hlocks : ∀ other call₁ stage₁, m.port other = some (call₁, stage₁) → stage₁ = .lock := by
    intro other call₁ stage₁ hother
    by_contra hstage
    have hlock := (h.lock other).mpr ⟨call₁, stage₁, hother, hstage⟩
    rw [hfree] at hlock
    cases hlock
  refine ⟨h.prefetch, h.count, h.locked, h.kept, fun other call₁ stage₁ hother => ?_,
    fun other => ?_, fun v hv _ => h.closed v hv fun other call₁ stage₁ hother hstage =>
      absurd (hlocks other call₁ stage₁ hother) hstage,
    fun v hv start end_ textEnd hop hnot => h.loaded v hv start end_ textEnd hop ?_, h.empty⟩
  · rcases State.goto_port_eq_some.mp hother with ⟨rfl, rfl, rfl⟩ | ⟨-, hother⟩
    · exact ⟨hcall.control, hcall.last, fun offset hin hout => absurd hin hout, hcall.loading, by simp⟩
    · obtain ⟨hcontrol, hlast, hregisters, hloading, htouched⟩ := h.call other call₁ stage₁ hother
      exact ⟨hcontrol, hlast, hregisters, hloading, htouched⟩
  · simp only [State.goto_port_eq_some]
    constructor
    · rintro hlock
      obtain rfl := Option.some.inj hlock
      exact ⟨call, _, .inl ⟨rfl, rfl, rfl⟩, by simp⟩
    · rintro ⟨call₁, stage₁, ⟨rfl, -, -⟩ | ⟨-, hother⟩, hstage⟩
      · rfl
      · exact absurd (hlocks other call₁ stage₁ hother) hstage
  · intro other call₁ stage₁ hother
    rcases eq_or_ne other cpu with rfl | hne
    · rw [hport] at hother
      cases hother
      exact hnot other call _ (State.goto_port_eq_some.mpr (.inl ⟨rfl, rfl, rfl⟩))
    · exact hnot other call₁ stage₁ (State.goto_port_eq_some.mpr (.inr ⟨hne, hother⟩))

omit [DecidableEq O] in
/-- The CPU has locked the way again, and gives the lock back. -/
theorem Inv.unlock (h : Inv config layout c contents₀ m)
    (hport : m.port cpu = some (call, .readD true [])) : Inv config layout c contents₀
      { m with pPL310Lock := none, port := Function.update m.port cpu none } := by
  have hcall := h.call cpu call _ hport
  have hports : ∀ {other call₁ stage₁}, Function.update m.port cpu none other =
      some (call₁, stage₁) → other ≠ cpu ∧ m.port other = some (call₁, stage₁) ∧
        stage₁ = .lock := by
    intro other call₁ stage₁ hother
    rw [Function.update_apply] at hother
    split at hother
    · cases hother
    · next hne => exact ⟨hne, hother, h.stage_of_ne hport (by simp) hne hother⟩
  refine ⟨h.prefetch, h.count, h.locked, h.kept, fun other call₁ stage₁ hother => ?_,
    fun other => ⟨by simp, ?_⟩, fun v hv hnot other kind => ?_,
    fun v hv start end_ textEnd hop hnot => ?_, h.empty⟩
  · obtain ⟨-, hother, -⟩ := hports hother
    obtain ⟨hcontrol, hlast, hregisters, hloading, htouched⟩ := h.call other call₁ stage₁ hother
    exact ⟨hcontrol, hlast, hregisters, hloading, htouched⟩
  · rintro ⟨call₁, stage₁, hother, hstage⟩
    exact absurd (hports hother).2.2 hstage
  · rcases eq_or_ne call.way v with rfl | hway
    · obtain ⟨hd, hi⟩ := hcall.registers _ (config.register_mem other) List.not_mem_nil
      cases kind with
      | data => exact hd
      | instruction => exact hi
    · refine h.closed v hv (fun other call₁ stage₁ hother hstage => ?_) other kind
      rcases eq_or_ne other cpu with rfl | hne
      · rw [hport] at hother
        cases hother
        exact hway
      · exact absurd (h.stage_of_ne hport (by simp) hne hother) hstage
  · rcases eq_or_ne call.way v with rfl | hway
    · rw [hcall.last] at hop
      cases hop
      exact hcall.loading
    · refine h.loaded v hv start end_ textEnd hop fun other call₁ stage₁ hother => ?_
      rcases eq_or_ne other cpu with rfl | hne
      · rw [hport] at hother
        cases hother
        exact hway
      · exact hnot other call₁ stage₁ ((Function.update_of_ne hne ..).trans hother)

/-! ### Locking a way -/

theorem getLsbD_update_lockdownValue {registers : Nat → BitVec 32} {offset way v : Nat}
    {lockdown : Bool} (hv : v < 32) (hne : v ≠ way) (other : Nat) :
    (Function.update registers offset (lockdownValue (registers offset) way lockdown)
      other).getLsbD v = (registers other).getLsbD v := by
  rw [Function.update_apply]
  split
  · next heq => rw [getLsbD_lockdownValue hv, if_neg hne, heq]
  · rfl

omit [DecidableEq C] [DecidableEq O] in
/-- A way that the cache management touches. -/
theorem Inv.managed (h : Inv config layout c contents₀ m) (hway : ¬ Kept c way) :
    way < m.shared.cache.mCacheWayCount ∧
      (m.shared.cache.mCacheWays way).permanentLocked = false := by
  rw [← Kept.congr h.count h.locked, Kept, not_or] at hway
  exact ⟨Nat.lt_of_not_le hway.1, by simpa using hway.2⟩

section
variable (h : Inv config layout c contents₀ m) {lockdown : Bool} {offset : Nat} {offsets : List Nat}
  {lockdownRegisterD lockdownRegisterI : BitVec 32}
include h
omit [DecidableEq O]

theorem Inv.readD (hport : m.port cpu = some (call, .readD lockdown (offset :: offsets))) :
    Inv config layout c contents₀
      (m.goto cpu call (.readI lockdown offset offsets (m.lockdownD offset))) := by
  have hcall := h.call cpu call _ hport
  exact h.goto hport (by simp) (by simp) ⟨hcall.registers, rfl⟩ (fun _ _ _ _ => ⟨rfl, rfl⟩)
    (fun _ _ => rfl) hcall.loading (by simp)

theorem Inv.readI
    (hport : m.port cpu = some (call, .readI lockdown offset offsets lockdownRegisterD)) :
    Inv config layout c contents₀ (m.goto cpu call
      (.writeD lockdown offset offsets lockdownRegisterD (m.lockdownI offset))) := by
  have hcall := h.call cpu call _ hport
  obtain ⟨hdone, hd⟩ := hcall.registers
  exact h.goto hport (by simp) (by simp) ⟨hdone, hd, rfl⟩ (fun _ _ _ _ => ⟨rfl, rfl⟩)
    (fun _ _ => rfl) hcall.loading (by simp)

theorem Inv.writeD (hcount : c.mCacheWayCount ≤ PL310_CACHE_WAYS) (hport : m.port cpu =
      some (call, .writeD lockdown offset offsets lockdownRegisterD lockdownRegisterI)) :
    Inv config layout c contents₀ ({ m with
        lockdownD := Function.update m.lockdownD offset
          (lockdownValue lockdownRegisterD call.way lockdown) }.goto cpu call
      (.writeI lockdown offset offsets lockdownRegisterI)) := by
  have hcall := h.call cpu call _ hport
  obtain ⟨hdone, rfl, hi⟩ := hcall.registers
  have hway : call.way < 32 := by
    have := (h.managed (h.not_kept hport)).1
    have := h.count
    simp only [PL310_CACHE_WAYS] at hcount
    omega
  refine h.goto hport (by simp) (by simp) ⟨fun o ho hout => ?_, ?_, hi⟩ (fun o v hv hne => ⟨?_, rfl⟩)
    (fun _ _ => rfl) hcall.loading (by simp)
  · have hne : o ≠ offset := by
      rintro rfl
      exact hout List.mem_cons_self
    rw [Function.update_of_ne hne]
    exact hdone o ho hout
  · rw [Function.update_self, getLsbD_lockdownValue hway, if_pos rfl]
  · exact getLsbD_update_lockdownValue (by simp only [PL310_CACHE_WAYS] at hv; omega) hne o

theorem Inv.writeI (hcount : c.mCacheWayCount ≤ PL310_CACHE_WAYS)
    (hport : m.port cpu = some (call, .writeI lockdown offset offsets lockdownRegisterI)) :
    Inv config layout c contents₀ ({ m with
        lockdownI := Function.update m.lockdownI offset
          (lockdownValue lockdownRegisterI call.way lockdown) }.goto cpu call
      (.readD lockdown offsets)) := by
  have hcall := h.call cpu call _ hport
  obtain ⟨hdone, hd, rfl⟩ := hcall.registers
  have hway : call.way < 32 := by
    have := (h.managed (h.not_kept hport)).1
    have := h.count
    simp only [PL310_CACHE_WAYS] at hcount
    omega
  refine h.goto hport (by simp) (by simp) (fun o ho hout => ?_) (fun o v hv hne => ⟨rfl, ?_⟩)
    (fun _ _ => rfl) hcall.loading (by simp)
  · rcases eq_or_ne o offset with rfl | hne
    · rw [Function.update_self, getLsbD_lockdownValue hway, if_pos rfl]
      exact ⟨hd, rfl⟩
    · rw [Function.update_of_ne hne]
      exact hdone o ho (by simp [hne, hout])
  · exact getLsbD_update_lockdownValue (by simp only [PL310_CACHE_WAYS] at hv; omega) hne o

end

/-! ### Prefetching the lines -/

omit [DecidableEq C] [DecidableEq O] in
/-- A call is for a part of a component. -/
theorem Inv.mem_chunks (h : Inv config layout c contents₀ m)
    (hport : m.port cpu = some (call, stage)) : ∃ osc, (call.start, call.end_) ∈
      chunks layout (layout.getOSCStart osc) (layout.getOSCEnd osc) := by
  obtain ⟨hlt, hunlocked⟩ := h.managed (h.not_kept hport)
  exact (h.prefetch.way call.way hlt hunlocked _ _ _ (h.call cpu call stage hport).last).1

omit [DecidableEq C] [DecidableEq O] in
/-- The loop of a call touches the lines of the part. -/
theorem Inv.prefetchDataToWay_touches (hlines : layout.LineAligned)
    (h : Inv config layout c contents₀ m) (hport : m.port cpu = some (call, stage)) :
    32 ∣ call.start ∧ PL310CacheManagement.prefetchDataToWay call.start call.end_ call.textEnd =
      .ok ((lines 32 call.start (call.end_ + 1)).map (touch call.textEnd)) := by
  obtain ⟨osc, hchunk⟩ := h.mem_chunks hport
  obtain ⟨hstart, hle, hfirst, -, hend, -⟩ := chunk_spec hlines.way (hlines.start osc) hchunk
  have hlt := hlines.lt osc
  have hside := hlines.side osc
  dsimp only at hle hfirst hend
  exact ⟨hstart, PL310CacheManagement.prefetchDataToWay_touches hstart hfirst (by omega) (by omega)⟩

omit [DecidableEq O] in
/-- The way is unlocked, and the loop begins. -/
theorem Inv.unlocked (hlines : layout.LineAligned) (h : Inv config layout c contents₀ m)
    (hport : m.port cpu = some (call, .readD false [])) {touched : List (Nat × PrefetchKind)}
    (hok : PL310CacheManagement.prefetchDataToWay call.start call.end_ call.textEnd = .ok touched) :
    Inv config layout c contents₀ (m.goto cpu call (.prefetch touched)) := by
  have hcall := h.call cpu call _ hport
  obtain ⟨hstart, htouches⟩ := h.prefetchDataToWay_touches hlines hport
  rw [htouches] at hok
  have htouched : touched.map Prod.fst = lines 32 call.start (call.end_ + 1) := by
    obtain rfl := Except.ok.inj hok
    rw [List.map_map]
    exact List.map_id _
  refine h.goto hport (by simp) (by simp) hcall.registers (fun _ _ _ _ => ⟨rfl, rfl⟩)
    (fun _ _ => rfl) ?_ fun touched' heq => ?_
  · rw [Stage.todo, htouched]
    exact hcall.loading
  · obtain rfl : touched = touched' := by simpa using heq
    rw [htouched]
    exact ⟨nodup_lines (by decide), fun line hline => (mem_lines_iff hstart).mp hline⟩

omit [DecidableEq C] [DecidableEq O] in
/-- A line that is in a way other than the one it is prefetched to is in the cache for good. -/
theorem Inv.elsewhere (hlayout : layout.Disjoint) (hlines : layout.LineAligned)
    (h : Inv config layout c contents₀ m) (hport : m.port cpu = some (call, stage))
    (hline : Touched call.start call.end_ line) (v : Nat)
    (hv : Has (lineIndex layout) m.contents v line) :
    v = call.way ∨ KeptLine layout c contents₀ line := by
  by_cases hkept : Kept c v
  · refine .inr ⟨v, hkept, ?_⟩
    rw [Has, ← h.kept v hkept]
    exact hv
  refine .inl ?_
  -- what is in a way of the cache management belongs to the part that it was prefetched for
  obtain ⟨start, end_, textEnd, hlast, hin⟩ : ∃ start end_ textEnd,
      m.shared.cache.lastOperation v = some (.prefetchDataToWay start end_ textEnd) ∧
        Touched start end_ line := by
    by_cases hop : ∀ start end_ textEnd,
        m.shared.cache.lastOperation v ≠ some (.prefetchDataToWay start end_ textEnd)
    · rw [Has, h.empty v hkept hop] at hv
      cases hv
    · push Not at hop
      obtain ⟨start, end_, textEnd, hlast⟩ := hop
      refine ⟨start, end_, textEnd, hlast, ?_⟩
      by_cases hfree : ∀ cpu call stage, m.port cpu = some (call, stage) → call.way ≠ v
      · exact ((h.loaded v hkept start end_ textEnd hlast hfree).only _ line hv).2.1
      · push Not at hfree
        obtain ⟨cpu', call', stage', hport', rfl⟩ := hfree
        have hcall' := h.call cpu' call' stage' hport'
        rw [hcall'.last] at hlast
        cases hlast
        exact (hcall'.loading.only _ line hv).2.1
  obtain ⟨osc, hchunk⟩ := h.mem_chunks hport
  obtain ⟨hlt, hunlocked⟩ := h.managed hkept
  obtain ⟨hlt', hunlocked'⟩ := h.managed (h.not_kept hport)
  obtain ⟨⟨osc', hchunk'⟩, -⟩ := h.prefetch.way v hlt hunlocked _ _ _ hlast
  have hsame := chunk_unique hlayout hlines hchunk hchunk' hline hin
  obtain ⟨rfl, rfl⟩ := Prod.mk.inj hsame
  exact h.prefetch.way_unique hlayout hlt' hunlocked' (h.call cpu call stage hport).last hlt
    hunlocked hlast

omit [DecidableEq O] in
/-- A line that is prefetched comes into the way of the call, or is in the cache for good. -/
theorem Inv.prefetchLine (hlayout : layout.Disjoint) (hlines : layout.LineAligned)
    (hcount : c.mCacheWayCount ≤ PL310_CACHE_WAYS) (h : Inv config layout c contents₀ m)
    {kind : PrefetchKind} {touched : List (Nat × PrefetchKind)}
    (hport : m.port cpu = some (call, .prefetch ((line, kind) :: touched)))
    (haccess : Access (lineIndex layout) (m.Opened config cpu (config.prefetchKind kind)) m.contents
      line contents) :
    Inv config layout c contents₀ ({ m with contents }.goto cpu call (.prefetch touched)) := by
  have hcall := h.call cpu call _ hport
  obtain ⟨hnodup, htouched⟩ := hcall.touched _ rfl
  rw [List.map_cons, List.nodup_cons] at hnodup
  rw [List.map_cons, List.forall_mem_cons] at htouched
  obtain ⟨osc, hchunk⟩ := h.mem_chunks hport
  obtain ⟨-, -, -, -, -, hsize⟩ := chunk_spec hlines.way (hlines.start osc) hchunk
  have hopened : m.Opened config cpu (config.prefetchKind kind) call.way := by
    have hlt := (h.managed (h.not_kept hport)).1
    obtain ⟨hd, hi⟩ := hcall.registers _ (config.register_mem cpu) List.not_mem_nil
    refine ⟨hlt.trans_le (h.count.trans_le hcount), ?_⟩
    cases config.prefetchKind kind with
    | data => exact hd
    | instruction => exact hi
  have honly : ∀ v, m.Opened config cpu (config.prefetchKind kind) v → v = call.way := by
    rintro v ⟨hv, hopen⟩
    by_contra hne
    rw [h.closed v hv fun other call₁ stage₁ hother hstage => ?_] at hopen
    · cases hopen
    rcases eq_or_ne other cpu with rfl | hcpu
    · rw [hport] at hother
      cases hother
      exact Ne.symm hne
    · exact absurd (h.stage_of_ne hport (by simp) hcpu hother) hstage
  obtain ⟨hloading, hothers⟩ := hcall.loading.access htouched.1
    (fun l hl hindex => lineIndex_injective hlines.way hsize htouched.1 hl hindex) hnodup.1 hopened
    honly (h.elsewhere hlayout hlines hport htouched.1) haccess
  refine h.goto hport (by simp) (by simp) hcall.registers (fun _ _ _ _ => ⟨rfl, rfl⟩) hothers hloading
    fun touched' heq => ?_
  obtain rfl : touched = touched' := by simpa using heq
  exact ⟨hnodup.2, htouched.2⟩

omit [DecidableEq O] in
/-- All lines have been touched, and the way is locked again. -/
theorem Inv.prefetched (h : Inv config layout c contents₀ m)
    (hport : m.port cpu = some (call, .prefetch [])) :
    Inv config layout c contents₀ (m.goto cpu call (.readD true config.offsets)) := by
  have hcall := h.call cpu call _ hport
  exact h.goto hport (by simp) (by simp) (fun _ hin hout => absurd hin hout)
    (fun _ _ _ _ => ⟨rfl, rfl⟩) (fun _ _ => rfl) hcall.loading (by simp)

/-! ### Accesses -/

/-- The line is in the cache for good, or belongs to a part that has been prefetched and recorded. -/
def Allowed (layout : MemoryLayout O) (c : GenericCacheManagement O)
    (contents : Nat → Nat → Option Nat) (m : State C O) (line : Nat) : Prop :=
  KeptLine layout c contents line ∨ ∃ way end_ textEnd, ¬ Kept c way ∧
    m.shared.cache.lastOperation way = some (.prefetchDataToWay
      (m.shared.cache.mCacheWays way).dataStart end_ textEnd) ∧
    Touched (m.shared.cache.mCacheWays way).dataStart end_ line

omit [DecidableEq C] [DecidableEq O] in
/-- Such a line is in the cache. -/
theorem Inv.hit_of_allowed (hlayout : layout.Disjoint) (h : Inv config layout c contents₀ m)
    (hline : Allowed layout c contents₀ m line) : Hit (lineIndex layout) m.contents line := by
  have hkeptHit : KeptLine layout c contents₀ line → Hit (lineIndex layout) m.contents line := by
    rintro ⟨v, hkept, hv⟩
    refine ⟨v, ?_⟩
    rw [Has, h.kept v hkept]
    exact hv
  rcases hline with hkept | ⟨way, end_, textEnd, hway, hlast, hline⟩
  · exact hkeptHit hkept
  -- the part is not on record before the call for it has returned
  have hfree : ∀ cpu call stage, m.port cpu = some (call, stage) → call.way ≠ way := by
    rintro cpu call stage hport rfl
    obtain ⟨osc, hcontrol⟩ := (h.call cpu call stage hport).control
    obtain ⟨hzero, -⟩ := h.prefetch.round cpu osc call.start call.way hcontrol
    obtain ⟨osc', hchunk⟩ := h.mem_chunks hport
    have hpos := (hlayout.start_pos osc').trans_le (GenericCacheManagement.le_of_mem_chunks hchunk)
    rw [(h.call cpu call stage hport).last, hzero] at hlast
    simp only [Option.some.injEq, CacheOperation.prefetchDataToWay.injEq] at hlast
    dsimp only at hpos
    omega
  rcases (h.loaded way hway _ end_ textEnd hlast hfree).loaded line hline with hin | hkept | htodo
  · exact ⟨way, hin⟩
  · exact hkeptHit hkept
  · cases htodo

omit [DecidableEq C] [DecidableEq O] in
/-- While no CPU has the lock all ways are locked. -/
theorem Inv.not_opened (h : Inv config layout c contents₀ m) (hfree : m.pPL310Lock = none)
    (cpu : C) (kind : PrefetchKind) (way : Nat) : ¬ m.Opened config cpu kind way := by
  rintro ⟨hlt, hopen⟩
  rw [h.closed way hlt fun other call stage hport hstage => ?_] at hopen
  · cases hopen
  · have hlock := (h.lock other).mpr ⟨call, stage, hport, hstage⟩
    rw [hfree] at hlock
    cases hlock

/-- While a CPU has the lock, the access is to such a line. -/
def Disciplined (layout : MemoryLayout O) (c : GenericCacheManagement O)
    (contents : Nat → Nat → Option Nat) (m : State C O) (l : Label C O) : Prop :=
  ∀ cpu line kind, l = .access cpu line kind → m.pPL310Lock ≠ none →
    Allowed layout c contents m line

omit [DecidableEq C] [DecidableEq O] in
/-- Such an access brings nothing into the cache. -/
theorem Inv.access (hlayout : layout.Disjoint) (h : Inv config layout c contents₀ m)
    {kind : PrefetchKind} (hallowed : m.pPL310Lock ≠ none → Allowed layout c contents₀ m line)
    (haccess : Access (lineIndex layout) (m.Opened config cpu kind) m.contents line contents) :
    contents = m.contents := by
  rcases eq_or_ne m.pPL310Lock none with hfree | hheld
  · exact funext fun way => haccess.closed (h.not_opened hfree cpu kind way)
  · exact haccess.of_hit (h.hit_of_allowed hlayout (hallowed hheld))

theorem Inv.step (hlayout : layout.Disjoint) (hlines : layout.LineAligned)
    (hcount : c.mCacheWayCount ≤ PL310_CACHE_WAYS) (h : Inv config layout c contents₀ m)
    {l : Label C O} (hdisciplined : Disciplined layout c contents₀ m l)
    (hstep : Step config layout m l m') : Inv config layout c contents₀ m' := by
  cases hstep with
  | shared hstep hout hnone => exact h.shared hlayout hstep hout hnone
  | evictCacheWay hstep hout hevict => exact h.evictCacheWay hlayout hstep hout hevict
  | prefetchDataToWay hstep hout hcall => exact h.prefetchDataToWay hlayout hlines hstep hout hcall
  | lock hport hfree => exact h.takeLock hport hfree
  | readD hport => exact h.readD hport
  | readI hport => exact h.readI hport
  | writeD hport => exact h.writeD hcount hport
  | writeI hport => exact h.writeI hcount hport
  | unlocked hport hok => exact h.unlocked hlines hport hok
  | prefetch hport haccess => exact h.prefetchLine hlayout hlines hcount hport haccess
  | prefetched hport => exact h.prefetched hport
  | unlock hport => exact h.unlock hport
  | @access cpu line kind contents haccess =>
    rw [h.access hlayout (hdisciplined cpu line kind rfl) haccess]
    exact h

end PL310CacheManagement
end CyPhOS
