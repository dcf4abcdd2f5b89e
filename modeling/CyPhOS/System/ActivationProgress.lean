import CyPhOS.EventHandling.DispatcherProgress
import CyPhOS.System.HandlerIsolation

/-! # Preloads and evictions come to their end

If the components of all tasks that can be active together have no more parts than there are ways
(`Fits`), a preload never asks for a way in vain (`preload_finds_way`). A CPU in a preload or an
eviction can then always go on, and `remaining` is the number of steps it makes until the handler
starts or the task is unlocked, whatever the other CPUs do in between (`activation_steps`). So the
CPUs never block each other for good (`system_progress`).
-/

namespace CyPhOS

open Transition

namespace ActivateOSC

open GenericCacheManagement (SharedState SharedLabel SharedStep CpuState chunks parts unlockedWays
  nextStart preloadEnd)

variable {n : Nat} {O E R T Q : Type} [DecidableEq O] [DecidableEq T] [Fintype T] [DecidableEq Q]
  {strategy : Strategy n O T Q} {program : Program O E R} {layout : MemoryLayout O}
  {cache : GenericCacheManagement O} {m m' : State n O E R T Q} {cpu : Fin n} {t : T} {r : R}
  {osc : O} {l : Label n O E R T Q} {ls : List (Label n O E R T Q)}

/-! ## Every preload finds its ways -/

/-- The components of what a CPU may be running. -/
def oscsOf (program : Program O E R) : Option R → List O
  | none => []
  | some r => (program.trigger r).oscSet

/-- Tasks of the triggers can be active together. -/
def Compatible (program : Program O E R) (running : Fin n → Option R) : Prop :=
  ∀ cpu cpu', cpu ≠ cpu' →
    (oscsOf program (running cpu)).Disjoint (oscsOf program (running cpu'))

/-- There are ways for all tasks that can be active together. -/
def Fits (n : Nat) (program : Program O E R) (layout : MemoryLayout O)
    (cache : GenericCacheManagement O) : Prop :=
  ∀ running : Fin n → Option R, Compatible program running →
    ∑ cpu, (parts layout (oscsOf program (running cpu))).card ≤ (unlockedWays cache).card

omit [DecidableEq T] [Fintype T] [DecidableEq Q] in
theorem unlockedWays_of_run {s s' : SharedState (Fin n) O} {ls : List (SharedLabel (Fin n) O)}
    (hrun : Run (SharedStep layout) s ls s') : unlockedWays s'.cache = unlockedWays s.cache := by
  induction hrun with
  | nil => rfl
  | snoc _ hstep ih =>
    obtain ⟨hcount, hlocked⟩ := hstep.locks
    rw [← ih, unlockedWays, unlockedWays, hcount]
    exact Finset.filter_congr fun way _ => by rw [hlocked way]

/-- A step of the system is one step of the cache management at most. -/
theorem Inv.shared_step (h : Inv strategy program m) (hstep : Step strategy program layout m l m') :
    m'.shared = m.shared ∨ ∃ l', SharedStep layout m.shared l' m'.shared := by
  obtain ⟨-, hshared⟩ := h.projects hstep
  have hlength : l.toShared program = [] ∨ ∃ l', l.toShared program = [] ++ [l'] := by
    cases l with
    | dispatcher l => cases l <;> simp [Label.toShared]
    | _ => simp [Label.toShared]
  rcases hlength with hnil | ⟨l', hsingle⟩
  · rw [hnil] at hshared
    exact .inl (run_nil_iff.mp hshared).symm
  · rw [hsingle] at hshared
    obtain ⟨s, hrun, hstep⟩ := run_snoc_iff.mp hshared
    cases run_nil_iff.mp hrun
    exact .inr ⟨l', hstep⟩

theorem Fits.exists_way (h : Fits n program layout cache) (hlayout : layout.Disjoint)
    (hboot : GenericCacheManagement.Booted layout cache)
    (hrun : Run (Step strategy program layout) (.initial cache) ls m) {oscStart : Nat}
    {skipPreload : Bool}
    (hcontrol : (m.shared.cpus cpu).control = .preload osc oscStart skipPreload)
    (hlt : oscStart < layout.getOSCEnd osc) :
    ∃ way c, m.shared.cache.getLRUWay oscStart = (some way, c) := by
  have hinv := Inv.initial.run hrun
  obtain ⟨huse, -⟩ := useInv_of_run hlayout hboot hrun
  have hactive : ∀ cpu, (m.shared.cpus cpu).active = oscsOf program
      ((m.dispatcher.pActiveEventTask cpu).bind fun t => (m.dispatcher.eventTask t).trigger) := by
    intro cpu
    rw [hinv.active cpu, activeOSCs]
    cases m.dispatcher.pActiveEventTask cpu with
    | none => rfl
    | some t =>
      simp only [taskOSCs, Dispatcher.State.trigger, Option.bind_some]
      cases (m.dispatcher.eventTask t).trigger <;> rfl
  refine huse.exists_way hlayout hcontrol hlt ?_
  rw [unlockedWays_of_run (activateOSC_projects hrun).2]
  simp only [hactive]
  refine h _ fun cpu cpu' hne osc hosc hosc' => hne ?_
  rw [← hactive] at hosc hosc'
  exact huse.exclusive.disjoint cpu cpu' osc hosc hosc'

omit [DecidableEq T] [Fintype T] [DecidableEq Q] in
theorem noWay_cases {s s' : SharedState (Fin n) O} {l : SharedLabel (Fin n) O}
    (h : SharedStep layout s l s') (hnoWay : (s'.cpus cpu).control = .noWay) :
    (s.cpus cpu).control = .noWay ∨ ∃ osc oscStart skipPreload c,
      (s.cpus cpu).control = .preload osc oscStart skipPreload ∧ oscStart < layout.getOSCEnd osc ∧
      s.cache.getLRUWay oscStart = (none, c) := by
  rcases eq_or_ne cpu l.caller with rfl | hne
  · cases h with
    | noWay hcontrol hlt hcall => exact .inr ⟨_, _, _, _, hcontrol, hlt, hcall⟩
    | activate hcontrol => simp_all [SharedLabel.caller]
    | _ => simp [SharedLabel.caller] at hnoWay
  · rw [h.cpus_of_ne hne] at hnoWay
    exact .inl hnoWay

/-- A preload never asks for a way in vain. -/
theorem preload_finds_way (hlayout : layout.Disjoint)
    (hboot : GenericCacheManagement.Booted layout cache) (hfits : Fits n program layout cache)
    (hrun : Run (Step strategy program layout) (.initial cache) ls m) :
    ∀ cpu, (m.shared.cpus cpu).control ≠ .noWay := by
  induction hrun with
  | nil => exact fun cpu => by simp [State.initial, SharedState.initial]
  | @snoc ls m₁ l m₂ hrun hstep ih =>
    intro cpu hnoWay
    rcases (Inv.initial.run hrun).shared_step hstep with hsame | ⟨l', hshared⟩
    · rw [hsame] at hnoWay
      exact ih cpu hnoWay
    · rcases noWay_cases hshared hnoWay with hold | ⟨osc, a, skipPreload, c, hcontrol, hlt, hcall⟩
      · exact ih cpu hold
      · obtain ⟨way, c', hway⟩ := hfits.exists_way hlayout hboot hrun hcontrol hlt
        rw [hcall] at hway
        cases hway

open GenericCacheManagement (new onePage)

/-- A component of one page for each of two CPUs, and two ways. -/
theorem onePage_fits : Fits 2 oneTrigger onePage (new 2) := by
  have hparts : ∀ r, (parts onePage (oscsOf oneTrigger r)).card ≤ 1 := by
    intro r
    have hparts : parts onePage (oscsOf oneTrigger r) ⊆ {((), 0x1000)} := by
      rintro ⟨osc, dataStart⟩ hpart
      obtain ⟨-, hstart⟩ := GenericCacheManagement.mem_parts.mp hpart
      change dataStart ∈ (chunks onePage 0x1000 0x2000).map Prod.fst at hstart
      simpa [chunks_onePage] using hstart
    exact Finset.card_le_card hparts
  have hways : (unlockedWays (new 2 : GenericCacheManagement Unit)).card = 2 := by decide
  intro running _
  rw [hways]
  exact Finset.sum_le_card_nsmul _ _ 1 fun cpu _ => hparts (running cpu)

theorem preload_finds_way_onePage : ∃ (ls : List (Label 2 Unit Bool Unit (Fin 2) (Fin 3)))
    (m : State 2 Unit Bool Unit (Fin 2) (Fin 3)),
    Run (Step multiQueuePriorityStrategy oneTrigger onePage) (.initial (new 2)) ls m ∧
      InHandler m 0 0 () ∧ ∀ cpu, (m.shared.cpus cpu).control ≠ .noWay := by
  obtain ⟨ls, m, hrun, h⟩ := oneTrigger_handler
  exact ⟨ls, m, hrun, h, preload_finds_way onePage_disjoint (.new 2) onePage_fits hrun⟩

/-! ## What is left to do -/

/-- The CPU that makes a step. -/
def Label.caller : Label n O E R T Q → Option (Fin n)
  | dispatcher l => l.cpu
  | activateOSC cpu | eventTaskFinished cpu | preloadSingleOSC cpu _ | lookupAndEvictOSC cpu _ =>
    some cpu
  | .cache l => some l.caller

/-- The parts of a component from an address on. -/
def partCount (layout : MemoryLayout O) (osc : O) (oscStart : Nat) : Nat :=
  (chunks layout oscStart (layout.getOSCEnd osc)).length

/-- The steps up to the end of the preload or the eviction of a component. -/
def stepsLeft (layout : MemoryLayout O) (count : Nat) : GenericCacheManagement.Control O → Nat
  | .idle | .noWay => 0
  | .preload osc oscStart _ => 5 * partCount layout osc oscStart + 1
  | .handedOut osc oscStart _ _ => 5 * partCount layout osc oscStart
  | .prefetched osc oscStart _ _ => 5 * partCount layout osc oscStart - 1
  | .startWritten osc oscStart _ _ => 5 * partCount layout osc oscStart - 2
  | .endWritten osc oscStart _ _ => 5 * partCount layout osc oscStart - 3
  | .evict _ way => count - way + 1

/-- The steps for the components that a CPU has not come to. -/
def Stage.stepsLeft (layout : MemoryLayout O) (count : Nat) : Stage O → Nat
  | outside => 0
  | preloadOSC rest => (rest.map fun osc => 5 * partCount layout osc (layout.getOSCStart osc) + 2).sum
  | evictOSC rest => rest.length * (count + 2)

/-- The steps of a CPU up to the one that starts its handler or unlocks its task. -/
def remaining (layout : MemoryLayout O) (m : State n O E R T Q) (cpu : Fin n) : Nat :=
  stepsLeft layout m.shared.cache.mCacheWayCount (m.shared.cpus cpu).control +
    (m.stage cpu).stepsLeft layout m.shared.cache.mCacheWayCount

omit [DecidableEq T] [Fintype T] [DecidableEq Q] [DecidableEq O] in
theorem partCount_next {oscStart : Nat} (h : oscStart < layout.getOSCEnd osc) :
    partCount layout osc oscStart =
      partCount layout osc (nextStart (preloadEnd layout oscStart (layout.getOSCEnd osc))
        (layout.getOSCEnd osc)) + 1 := by
  rw [partCount, GenericCacheManagement.chunks_of_lt h, List.length_cons, partCount]

omit [DecidableEq T] [Fintype T] [DecidableEq Q] in
/-- A step in a preload or an eviction is one of those left. -/
theorem stepsLeft_of_inside {s s' : SharedState (Fin n) O} {l : SharedLabel (Fin n) O}
    (hinv : GenericCacheManagement.Exclusive layout s) (h : SharedStep layout s l s')
    (hl : Inside l) (hnoWay : (s'.cpus l.caller).control ≠ .noWay) :
    stepsLeft layout s.cache.mCacheWayCount (s.cpus l.caller).control =
      stepsLeft layout s'.cache.mCacheWayCount (s'.cpus l.caller).control + 1 := by
  obtain ⟨hcount, -⟩ := h.locks
  rw [hcount]
  cases h with
  | activate | preloadSingleOSC | lookupAndEvictOSC => exact hl.elim
  | noWay => simp [SharedLabel.caller] at hnoWay
  | getLRUWay hcontrol =>
    simp [SharedLabel.caller, hcontrol, stepsLeft]
  | @skipPreload cpu osc oscStart _ _ hcontrol _ | @prefetchDataToWay cpu osc oscStart _ _ _ hcontrol
  | @setDataStart cpu osc oscStart _ _ hcontrol | @setDataEnd cpu osc oscStart _ _ hcontrol
  | @setOsc cpu osc oscStart _ _ hcontrol =>
    have hlt : oscStart < layout.getOSCEnd osc := by
      obtain ⟨hholds, -⟩ := (hinv.cpu cpu).holds osc oscStart _ _ (by rw [hcontrol]; rfl)
      exact hholds.lt_end
    have hnext := partCount_next hlt
    simp only [SharedLabel.caller, SharedState.goto_cpus_self, hcontrol, stepsLeft]
    omega
  | @preloaded cpu osc oscStart skipPreload hcontrol hend =>
    simp [SharedLabel.caller, hcontrol, stepsLeft, partCount,
      GenericCacheManagement.chunks_of_not_lt hend]
  | @evictCacheWay cpu osc way hcontrol hlt =>
    simp only [SharedLabel.caller, SharedState.goto_cpus_self, hcontrol, stepsLeft]
    omega
  | @freeOSC cpu osc way hcontrol hend =>
    simp only [SharedLabel.caller, SharedState.set_cpus_self, hcontrol, stepsLeft]
    omega

omit [DecidableEq O] [DecidableEq Q] in
/-- In a preload or an eviction the CPU has a task, which `getEvent` has returned to it. -/
theorem Inv.control_of_stage (h : Inv strategy program m) (hstage : m.stage cpu ≠ .outside) :
    (∃ t, m.dispatcher.control cpu = .returned (some t)) ∨
      m.dispatcher.control cpu = .executing := by
  cases hcase : m.stage cpu with
  | outside => exact absurd hcase hstage
  | preloadOSC rest =>
    obtain ⟨t, done, hcontrol, -⟩ := (hcase ▸ h.place cpu).of_preloadOSC
    exact .inl ⟨t, hcontrol⟩
  | evictOSC rest =>
    obtain ⟨hcontrol, -⟩ := (hcase ▸ h.place cpu).of_evictOSC
    exact .inr hcontrol

/-- The other CPUs do not change what is left. -/
theorem remaining_of_ne (hstep : Step strategy program layout m l m')
    (hcpu : l.caller ≠ some cpu) :
    m'.stage cpu = m.stage cpu ∧ remaining layout m' cpu = remaining layout m cpu := by
  suffices hsame : m'.shared.cache.mCacheWayCount = m.shared.cache.mCacheWayCount ∧
      (m'.shared.cpus cpu).control = (m.shared.cpus cpu).control ∧
      m'.stage cpu = m.stage cpu by
    obtain ⟨hcount, hcontrol, hstage⟩ := hsame
    exact ⟨hstage, by rw [remaining, remaining, hcount, hcontrol, hstage]⟩
  have hne : ∀ {cpu'}, l.caller = some cpu' → cpu ≠ cpu' := by
    rintro cpu' hcaller rfl
    exact hcpu hcaller
  cases hstep with
  | dispatcher | activateNone => exact ⟨rfl, rfl, rfl⟩
  | locked => exact ⟨rfl, by rw [State.setActive_of_ne (hne rfl)], rfl⟩
  | activateOSC | activate | eventTaskFinished =>
    exact ⟨rfl, rfl, State.setStage_of_ne (hne rfl)⟩
  | preloadSingleOSC | lookupAndEvictOSC =>
    exact ⟨rfl, congrArg _ (SharedState.set_cpus_of_ne (hne rfl)), State.setStage_of_ne (hne rfl)⟩
  | unlockTask =>
    exact ⟨rfl, by rw [State.setActive_of_ne (hne rfl)]; rfl, State.setStage_of_ne (hne rfl)⟩
  | cache hstep hl => exact ⟨hstep.locks.1, by rw [hstep.cpus_of_ne (hne rfl)], rfl⟩

/-- A CPU in a preload or an eviction makes one of the steps left. -/
theorem remaining_of_own (hinv : Inv strategy program m)
    (hexclusive : GenericCacheManagement.Exclusive layout m.shared)
    (hstep : Step strategy program layout m l m') (hstage : m.stage cpu ≠ .outside)
    (hactivate : l ≠ .dispatcher (.activate cpu))
    (hunlock : l ≠ .dispatcher (.eventTaskFinished cpu))
    (hnoWay : (m'.shared.cpus cpu).control ≠ .noWay) (hcpu : l.caller = some cpu) :
    m'.stage cpu ≠ .outside ∧ remaining layout m cpu = remaining layout m' cpu + 1 := by
  obtain ⟨lists, hgood⟩ := hinv.good
  have hplace := hinv.control_of_stage hstage
  cases hstep with
  | @dispatcher l d hstep hl =>
    obtain ⟨hexecuting, hreturned, -⟩ := control_of_uncached hgood hstep hl hcpu
    rcases hplace with ⟨t, hplace⟩ | hplace
    · exact absurd hplace (hreturned t)
    · exact absurd hplace hexecuting
  | locked hstep =>
    cases hcpu
    cases hstep with
    | locked hscan => simp [hscan] at hplace
  | activateNone | activate =>
    cases hcpu
    exact absurd rfl hactivate
  | unlockTask =>
    cases hcpu
    exact absurd rfl hunlock
  | activateOSC _ _ hstage' | eventTaskFinished _ _ hstage' =>
    cases hcpu
    exact absurd hstage' hstage
  | preloadSingleOSC hstage' hidle | lookupAndEvictOSC hstage' hidle =>
    cases hcpu
    simp only [State.Idle] at hidle
    simp [remaining, hstage', hidle, stepsLeft, Stage.stepsLeft]
    ring
  | @cache l s hstep hl =>
    cases hcpu
    obtain ⟨hcount, -⟩ := hstep.locks
    have hleft := stepsLeft_of_inside hexclusive hstep hl hnoWay
    refine ⟨hstage, ?_⟩
    rw [remaining, remaining, hleft]
    simp only [hcount]
    omega

/-- A CPU in a preload or an eviction is not kept from going on. -/
theorem exists_step (hlayout : layout.Disjoint)
    (hboot : GenericCacheManagement.Booted layout cache) (hfits : Fits n program layout cache)
    (hrun : Run (Step strategy program layout) (.initial cache) ls m)
    (hstage : m.stage cpu ≠ .outside) :
    ∃ l m', Step strategy program layout m l m' ∧ l.caller = some cpu := by
  have hinv := Inv.initial.run hrun
  have hcache : ∀ {l s}, SharedStep layout m.shared l s → Inside l → l.caller = cpu →
      ∃ l m', Step strategy program layout m l m' ∧ l.caller = some cpu :=
    fun hstep hl hcpu => ⟨_, _, .cache hstep hl, congrArg some hcpu⟩
  cases hcontrol : (m.shared.cpus cpu).control with
  | noWay => exact absurd hcontrol (preload_finds_way hlayout hboot hfits hrun cpu)
  | preload osc oscStart skipPreload =>
    by_cases hlt : oscStart < layout.getOSCEnd osc
    · obtain ⟨way, c, hway⟩ := hfits.exists_way hlayout hboot hrun hcontrol hlt
      exact hcache (.getLRUWay hcontrol hlt hway) trivial rfl
    · exact hcache (.preloaded hcontrol hlt) trivial rfl
  | handedOut osc oscStart skipPreload way =>
    cases hskip : skipPreload || (m.shared.cache.mCacheWays way).dataStart == oscStart with
    | true => exact hcache (.skipPreload hcontrol hskip) trivial rfl
    | false => exact hcache (.prefetchDataToWay hcontrol hskip rfl) trivial rfl
  | prefetched => exact hcache (.setDataStart hcontrol) trivial rfl
  | startWritten => exact hcache (.setDataEnd hcontrol) trivial rfl
  | endWritten => exact hcache (.setOsc hcontrol) trivial rfl
  | evict osc way =>
    by_cases hlt : way < m.shared.cache.mCacheWayCount
    · exact hcache (.evictCacheWay hcontrol hlt) trivial rfl
    · exact hcache (.freeOSC hcontrol hlt) trivial rfl
  | idle =>
    cases hcase : m.stage cpu with
    | outside => exact absurd hcase hstage
    | preloadOSC rest =>
      cases rest with
      | nil =>
        obtain ⟨t, done, hreturned, -⟩ := (hcase ▸ hinv.place cpu).of_preloadOSC
        exact ⟨_, _, .activate hcase hcontrol hreturned, rfl⟩
      | cons osc rest => exact ⟨_, _, .preloadSingleOSC hcase hcontrol, rfl⟩
    | evictOSC rest =>
      cases rest with
      | nil =>
        obtain ⟨lists, hgood⟩ := hinv.good
        obtain ⟨hexecuting, -⟩ := (hcase ▸ hinv.place cpu).of_evictOSC
        have hactive : m.dispatcher.pActiveEventTask cpu ≠ none := hgood.agrees hexecuting
        obtain ⟨t, ht⟩ := Option.ne_none_iff_exists'.mp hactive
        exact ⟨_, _, .unlockTask hcase hcontrol ht, rfl⟩
      | cons osc rest => exact ⟨_, _, .lookupAndEvictOSC hcase hcontrol, rfl⟩

/-- A CPU starts its handler or unlocks its task when nothing is left. -/
theorem remaining_of_last (hinv : Inv strategy program m)
    (hstep : Step strategy program layout m l m') (hstage : m.stage cpu ≠ .outside)
    (hlast : l = .dispatcher (.activate cpu) ∨ l = .dispatcher (.eventTaskFinished cpu)) :
    remaining layout m cpu = 0 := by
  obtain ⟨lists, hgood⟩ := hinv.good
  cases hstep with
  | dispatcher _ hl =>
    rcases hlast with hlast | hlast <;> cases hlast <;> exact hl.elim
  | @activateNone cpu' task hcontrol hnone =>
    obtain rfl : cpu' = cpu := by simpa using hlast
    have hactive : m.dispatcher.pActiveEventTask cpu' = task := hgood.agrees hcontrol
    rcases hinv.control_of_stage hstage with ⟨t, hreturned⟩ | hexecuting
    · rw [hcontrol, Dispatcher.Control.returned.injEq] at hreturned
      subst hreturned
      exact absurd hnone (by simp [hactive])
    · rw [hcontrol] at hexecuting
      cases hexecuting
  | @activate cpu' t hstage' hidle hcontrol | @unlockTask cpu' t hstage' hidle hactive =>
    obtain rfl : cpu' = cpu := by simpa using hlast
    simp only [State.Idle] at hidle
    simp [remaining, hstage', hidle, stepsLeft, Stage.stepsLeft]
  | _ => simp at hlast

/-- A CPU in a preload or an eviction can always go on. Whatever the other CPUs do, it makes exactly
`remaining` steps before the one that starts its handler or unlocks its task: that one is taken when
nothing is left, and is then the only one. -/
theorem activation_steps (hlayout : layout.Disjoint)
    (hboot : GenericCacheManagement.Booted layout cache) (hfits : Fits n program layout cache)
    (hrun : Run (Step strategy program layout) (.initial cache) ls m)
    (hstage : m.stage cpu ≠ .outside) {ls' : List (Label n O E R T Q)}
    (hrun' : Run (Step strategy program layout) m ls' m')
    (hactivate : .dispatcher (.activate cpu) ∉ ls')
    (hunlock : .dispatcher (.eventTaskFinished cpu) ∉ ls') :
    ls'.countP (·.caller = some cpu) + remaining layout m' cpu = remaining layout m cpu ∧
      (∃ l m'', Step strategy program layout m' l m'' ∧ l.caller = some cpu) ∧
      ∀ l m'', Step strategy program layout m' l m'' → l.caller = some cpu →
        (remaining layout m' cpu = 0 ↔ l = .dispatcher (.activate cpu) ∨
          l = .dispatcher (.eventTaskFinished cpu)) := by
  have hcount : m'.stage cpu ≠ .outside ∧
      ls'.countP (·.caller = some cpu) + remaining layout m' cpu = remaining layout m cpu := by
    induction hrun' with
    | nil => exact ⟨hstage, by simp⟩
    | @snoc ls' m₁ l m₂ hrun₁ hstep ih =>
      simp only [List.mem_append, List.mem_singleton, not_or] at hactivate hunlock
      obtain ⟨hstage₁, hcount₁⟩ := ih hactivate.1 hunlock.1
      rw [List.countP_append, List.countP_singleton]
      by_cases hcpu : l.caller = some cpu
      · have hreach := hrun.append hrun₁
        obtain ⟨huse, -⟩ := useInv_of_run hlayout hboot hreach
        obtain ⟨hstage₂, hleft⟩ := remaining_of_own (Inv.initial.run hreach) huse.exclusive hstep
          hstage₁ (Ne.symm hactivate.2) (Ne.symm hunlock.2)
          (preload_finds_way hlayout hboot hfits (hreach.snoc hstep) cpu) hcpu
        exact ⟨hstage₂, by simp only [hcpu, decide_true, if_true]; omega⟩
      · obtain ⟨hstage₂, hleft⟩ := remaining_of_ne hstep hcpu
        exact ⟨hstage₂ ▸ hstage₁, by simpa [hcpu, hleft] using hcount₁⟩
  obtain ⟨hstage', hcount⟩ := hcount
  have hreach := hrun.append hrun'
  refine ⟨hcount, exists_step hlayout hboot hfits hreach hstage', fun l m'' hstep hcpu =>
    ⟨fun hzero => ?_, remaining_of_last (Inv.initial.run hreach) hstep hstage'⟩⟩
  by_contra hother
  obtain ⟨huse, -⟩ := useInv_of_run hlayout hboot hreach
  obtain ⟨-, hleft⟩ := remaining_of_own (Inv.initial.run hreach) huse.exclusive hstep hstage'
    (fun e => hother (.inl e)) (fun e => hother (.inr e))
    (preload_finds_way hlayout hboot hfits (hreach.snoc hstep) cpu) hcpu
  omega

/-- A preload of a component of one page is over after 7 steps. -/
theorem activation_steps_onePage : ∃ (ls : List (Label 2 Unit Bool Unit (Fin 2) (Fin 3)))
    (m : State 2 Unit Bool Unit (Fin 2) (Fin 3)),
    Run (Step multiQueuePriorityStrategy oneTrigger onePage) (.initial (new 2)) ls m ∧
      m.stage 0 = .preloadOSC [()] ∧
      ∀ ls' m', Run (Step multiQueuePriorityStrategy oneTrigger onePage) m ls' m' →
        .dispatcher (.activate 0) ∉ ls' → .dispatcher (.eventTaskFinished 0) ∉ ls' →
        ls'.countP (·.caller = some 0) + remaining onePage m' 0 = 7 := by
  obtain ⟨ls, ⟨d, s, stage⟩, hrun, hs, rfl, hcontrol, hactive, htrigger⟩ := oneTrigger_returned
  obtain rfl : s = _ := hs
  have hrun := hrun.snoc (.activateOSC hcontrol hactive rfl htrigger rfl)
  refine ⟨_, _, hrun, rfl, fun ls' m' hrun' hactivate hunlock => ?_⟩
  obtain ⟨hcount, -⟩ := activation_steps onePage_disjoint (.new 2) onePage_fits hrun
    (by simp) hrun' hactivate hunlock
  rw [hcount]
  change 0 + ([5 * (chunks onePage 0x1000 0x2000).length + 2]).sum = 7
  simp [chunks_onePage]

/-- With ways for all tasks and a destination for all triggers, the system never comes to a stop: a
CPU can go on, or it waits for the lock of a queue whose holder can go on. -/
theorem system_progress (hlayout : layout.Disjoint)
    (hboot : GenericCacheManagement.Booted layout cache) (hfits : Fits n program layout cache)
    (hdestination : ∀ r, (program.trigger r).pDestinationOSC ≠ none)
    (hrun : Run (Step strategy program layout) (.initial cache) ls m) (cpu : Fin n) :
    (∃ l m', Step strategy program layout m l m' ∧ l.caller = some cpu) ∨
      ∃ cpu', Dispatcher.WaitsFor m.dispatcher cpu cpu' ∧
        ∃ l m', Step strategy program layout m l m' ∧ l.caller = some cpu' := by
  have hinv := Inv.initial.run hrun
  obtain ⟨lists, hgood⟩ := hinv.good
  have hnext : ∀ cpu, (∃ l m', Step strategy program layout m l m' ∧ l.caller = some cpu) ∨
      ∃ cpu', Dispatcher.WaitsFor m.dispatcher cpu cpu' := by
    intro cpu
    by_cases hstage : m.stage cpu = .outside
    swap
    · exact .inl (exists_step hlayout hboot hfits hrun hstage)
    refine (hgood.exists_step hdestination cpu).imp_left ?_
    rintro ⟨l, d, hstep, hcpu⟩
    cases l with
    | enqueueEvent => cases hcpu
    | locked cpu' q t r => exact ⟨_, _, .locked hstep, hcpu⟩
    | activate cpu' =>
      cases hcpu
      cases hstep with
      | @activate _ task hcontrol =>
        have hactive : m.dispatcher.pActiveEventTask cpu = task := hgood.agrees hcontrol
        cases task with
        | none => exact ⟨_, _, .activateNone hcontrol (.inl rfl), rfl⟩
        | some t =>
          obtain ⟨r, htrigger⟩ := Option.ne_none_iff_exists'.mp (hgood.cycled.active cpu t hactive).1
          obtain ⟨osc, hosc⟩ := Option.ne_none_iff_exists'.mp (hdestination r)
          exact ⟨_, _, .activateOSC hcontrol hactive hstage htrigger hosc, rfl⟩
    | eventTaskFinished cpu' =>
      cases hcpu
      cases hstep with
      | @eventTaskFinished _ t hcontrol hactive =>
        obtain ⟨r, htrigger⟩ := Option.ne_none_iff_exists'.mp (hgood.cycled.active cpu t hactive).1
        obtain ⟨osc, hosc⟩ := Option.ne_none_iff_exists'.mp (hdestination r)
        exact ⟨_, _, .eventTaskFinished hcontrol hactive hstage htrigger hosc, rfl⟩
    | _ => exact ⟨_, _, .dispatcher hstep trivial, hcpu⟩
  refine (hnext cpu).imp_right ?_
  rintro ⟨cpu', q, rest, hcontrol, hheld⟩
  refine ⟨cpu', ⟨q, rest, hcontrol, hheld⟩, (hnext cpu').resolve_right ?_⟩
  rintro ⟨cpu'', q', rest', hcontrol', -⟩
  rw [hcontrol'] at hheld
  cases hheld

theorem system_progress_onePage : ∃ (ls : List (Label 2 Unit Bool Unit (Fin 2) (Fin 3)))
    (m : State 2 Unit Bool Unit (Fin 2) (Fin 3)),
    Run (Step multiQueuePriorityStrategy oneTrigger onePage) (.initial (new 2)) ls m ∧
      InHandler m 0 0 () ∧ ∀ cpu,
        (∃ l m', Step multiQueuePriorityStrategy oneTrigger onePage m l m' ∧ l.caller = some cpu) ∨
          ∃ cpu', Dispatcher.WaitsFor m.dispatcher cpu cpu' ∧ ∃ l m',
            Step multiQueuePriorityStrategy oneTrigger onePage m l m' ∧ l.caller = some cpu' := by
  obtain ⟨ls, m, hrun, h⟩ := oneTrigger_handler
  exact ⟨ls, m, hrun, h, system_progress onePage_disjoint (.new 2) onePage_fits
    (fun _ => by simp [oneTrigger]) hrun⟩

end ActivateOSC
end CyPhOS
