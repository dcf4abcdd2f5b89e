import CyPhOS.System.ActivateOSC

/-! # Handlers keep their ways

What the cache management gives to the tasks of the dispatcher. While a handler runs, all parts of
its components are on record in ways that no other CPU touches (`handler_isolation`). A way is in use
only for a task that a CPU has locked, from the preload of its components to their eviction
(`ways_released`).
-/

namespace CyPhOS

open Transition

namespace ActivateOSC

open GenericCacheManagement (SharedState SharedLabel SharedStep CpuState RecordedFor UseInv AllLoaded
  parts waysInUse)

variable {n : Nat} {O E R T Q : Type} [DecidableEq O] [DecidableEq T] [Fintype T] [DecidableEq Q]
  {strategy : Strategy n O T Q} {program : Program O E R} {layout : MemoryLayout O}
  {cache : GenericCacheManagement O} {m m' : State n O E R T Q} {cpu : Fin n} {t : T} {r : R}
  {osc : O} {l : Label n O E R T Q} {ls : List (Label n O E R T Q)}

/-- The CPU runs the handler of a task. -/
structure InHandler (m : State n O E R T Q) (cpu : Fin n) (t : T) (r : R) : Prop where
  control : m.dispatcher.control cpu = .executing
  stage : m.stage cpu = .outside
  active : m.dispatcher.pActiveEventTask cpu = some t
  trigger : (m.dispatcher.eventTask t).trigger = some r

/-- A handler runs until it returns, and makes no step in the cache management. -/
theorem InHandler.step (h : InHandler m cpu t r) (hinv : Inv strategy program m)
    (hstep : Step strategy program layout m l m') (hl : l ≠ .eventTaskFinished cpu) :
    InHandler m' cpu t r ∧ ∀ l' ∈ l.toShared program, l'.caller ≠ cpu := by
  obtain ⟨lists, hgood⟩ := hinv.good
  -- a CPU in another stage, or elsewhere in the dispatcher, is another CPU
  have hstage : ∀ {cpu' stage}, m.stage cpu' = stage → stage ≠ .outside → cpu ≠ cpu' := by
    rintro cpu' stage hcpu' hne rfl
    exact hne (hcpu'.symm.trans h.stage)
  have hcontrol : ∀ {cpu' c}, m.dispatcher.control cpu' = c → c ≠ .executing → cpu ≠ cpu' := by
    rintro cpu' c hcpu' hne rfl
    exact hne (hcpu'.symm.trans h.control)
  have hkeep : ∀ {l d cpu'}, Dispatcher.Step strategy program m.dispatcher l d →
      l.cpu = some cpu' → cpu ≠ cpu' → d.control cpu = .executing ∧
        d.pActiveEventTask cpu = some t ∧ (d.eventTask t).trigger = some r := by
    intro l d cpu' hstep hcpu hne
    have hother : l.cpu ≠ some cpu := by
      rw [hcpu]
      exact fun e => hne (Option.some.inj e).symm
    obtain ⟨hactive, htrigger⟩ := hgood.active_keep hstep h.active (by
      rintro rfl
      exact hother rfl)
    exact ⟨(hgood.control_of_ne hstep hother).trans h.control, hactive, htrigger.trans h.trigger⟩
  cases hstep with
  | @dispatcher l d hstep hl' =>
    have hcpu : l.cpu ≠ some cpu := fun hcpu =>
      (control_of_uncached hgood hstep hl' hcpu).1 h.control
    obtain ⟨hactive, htrigger⟩ := hgood.active_keep hstep h.active (by
      rintro rfl
      exact hl')
    refine ⟨⟨(hgood.control_of_ne hstep hcpu).trans h.control, h.stage, hactive,
      htrigger.trans h.trigger⟩, ?_⟩
    cases l with
    | locked | activate | eventTaskFinished => exact hl'.elim
    | _ => exact List.forall_mem_nil _
  | @locked cpu' q u r' d hstep =>
    have hne : cpu ≠ cpu' := by
      cases hstep with
      | locked hscan => exact hcontrol hscan (by simp)
    obtain ⟨hexecuting, hactive, htrigger⟩ := hkeep hstep rfl hne
    exact ⟨⟨hexecuting, h.stage, hactive, htrigger⟩,
      List.forall_mem_singleton.mpr hne.symm⟩
  | @activateNone cpu' task hreturned hnone =>
    have hne := hcontrol hreturned (by simp)
    obtain ⟨hexecuting, hactive, htrigger⟩ := hkeep (.activate hreturned) rfl hne
    exact ⟨⟨hexecuting, h.stage, hactive, htrigger⟩, List.forall_mem_nil _⟩
  | @activateOSC cpu' u r' osc hreturned =>
    have hne := hcontrol hreturned (by simp)
    exact ⟨⟨h.control, (Function.update_of_ne hne ..).trans h.stage, h.active, h.trigger⟩,
      List.forall_mem_nil _⟩
  | @preloadSingleOSC cpu' osc rest hstage' =>
    have hne := hstage hstage' (by simp)
    exact ⟨⟨h.control, (Function.update_of_ne hne ..).trans h.stage, h.active, h.trigger⟩,
      List.forall_mem_singleton.mpr hne.symm⟩
  | @activate cpu' u hstage' hidle hreturned =>
    have hne := hstage hstage' (by simp)
    obtain ⟨hexecuting, hactive, htrigger⟩ := hkeep (.activate hreturned) rfl hne
    exact ⟨⟨hexecuting, (Function.update_of_ne hne ..).trans h.stage, hactive, htrigger⟩,
      List.forall_mem_nil _⟩
  | @eventTaskFinished cpu' =>
    have hne : cpu ≠ cpu' := by
      rintro rfl
      exact hl rfl
    exact ⟨⟨h.control, (Function.update_of_ne hne ..).trans h.stage, h.active, h.trigger⟩,
      List.forall_mem_nil _⟩
  | @lookupAndEvictOSC cpu' osc rest hstage' =>
    have hne := hstage hstage' (by simp)
    exact ⟨⟨h.control, (Function.update_of_ne hne ..).trans h.stage, h.active, h.trigger⟩,
      List.forall_mem_singleton.mpr hne.symm⟩
  | @unlockTask cpu' u hstage' hidle hactive' =>
    have hne := hstage hstage' (by simp)
    obtain ⟨hexecuting, -⟩ := (hstage' ▸ hinv.place cpu').of_evictOSC
    obtain ⟨hexecuting, hactive, htrigger⟩ := hkeep (.eventTaskFinished hexecuting hactive') rfl hne
    exact ⟨⟨hexecuting, (Function.update_of_ne hne ..).trans h.stage, hactive, htrigger⟩,
      List.forall_mem_singleton.mpr hne.symm⟩
  | @cache l s hstep hl' =>
    refine ⟨⟨h.control, h.stage, h.active, h.trigger⟩, List.forall_mem_singleton.mpr ?_⟩
    rintro rfl
    have hidle := (h.stage ▸ hinv.place l.caller).idle_of_outside
    obtain ⟨-, ⟨-, hbusy, -⟩ | ⟨osc, way, hevict, -⟩⟩ := inside_cases hstep hl'
    · exact hbusy hidle
    · simp [hevict] at hidle

theorem InHandler.run (h : InHandler m cpu t r) (hinv : Inv strategy program m)
    (hrun : Run (Step strategy program layout) m ls m') (hls : .eventTaskFinished cpu ∉ ls) :
    InHandler m' cpu t r ∧ ∀ l' ∈ ls.flatMap (Label.toShared program), l'.caller ≠ cpu := by
  induction hrun with
  | nil => exact ⟨h, List.forall_mem_nil _⟩
  | @snoc ls m₁ l m₂ hrun hstep ih =>
    simp only [List.mem_append, List.mem_singleton, not_or] at hls
    obtain ⟨h₁, hcaller⟩ := ih hls.1
    obtain ⟨h₂, hcaller'⟩ := h₁.step (hinv.run hrun) hstep (Ne.symm hls.2)
    refine ⟨h₂, fun l' hl' => ?_⟩
    simp only [List.flatMap_append, List.flatMap_singleton, List.mem_append] at hl'
    exact hl'.elim (hcaller l') (hcaller' l')

/-- A step that the handler does not make leaves the parts on record. -/
theorem recordedFor_run_of_other {s s' : SharedState (Fin n) O} {ls : List (SharedLabel (Fin n) O)}
    {dataStart way : Nat} (hlayout : layout.Disjoint)
    (h : GenericCacheManagement.Exclusive layout s)
    (hrec : RecordedFor layout s.cache (s.cpus cpu) osc dataStart way)
    (hrun : Run (SharedStep layout) s ls s') (hls : ∀ l ∈ ls, l.caller ≠ cpu) :
    RecordedFor layout s'.cache (s'.cpus cpu) osc dataStart way ∧
      (s'.cache.mCacheWays way).record = (s.cache.mCacheWays way).record ∧
      s'.cache.lastOperation way = s.cache.lastOperation way ∧
      (∀ other osc' a, .getLRUWay other osc' a way ∉ ls) ∧
      ∀ other, .prefetchDataToWay other way ∉ ls := by
  induction hrun with
  | nil => exact ⟨hrec, rfl, rfl, fun _ _ _ => List.not_mem_nil, fun _ => List.not_mem_nil⟩
  | @snoc ls s₁ l s₂ hrun hstep ih =>
    simp only [List.forall_mem_append, List.forall_mem_singleton] at hls
    obtain ⟨hrec₁, hrecord₁, hoperation₁, hways₁, hprefetch₁⟩ := ih hls.1
    obtain ⟨hrec₂, hrecord₂, hoperation₂, hways₂, hprefetch₂, -⟩ :=
      hrec₁.step_of_other hlayout (h.of_run hlayout hrun) hstep hls.2
    simp only [List.mem_append, List.mem_singleton, not_or]
    exact ⟨hrec₂, hrecord₂.trans hrecord₁, hoperation₂.trans hoperation₁,
      fun other osc' a => ⟨hways₁ other osc' a, Ne.symm (hways₂ other osc' a)⟩,
      fun other => ⟨hprefetch₁ other, Ne.symm (hprefetch₂ other)⟩⟩

/-- The cache management of a run. -/
theorem useInv_of_run (hlayout : layout.Disjoint) (hboot : GenericCacheManagement.Booted layout cache)
    (hrun : Run (Step strategy program layout) (.initial cache) ls m) :
    UseInv layout m.shared ∧ AllLoaded layout m.shared :=
  GenericCacheManagement.useInv_of_run hlayout hboot (activateOSC_projects hrun).2

/-- While a handler runs, every part of every component of its trigger is on record in a way that is
in use, not locked and the only one. Until the handler returns, the others prefetch nothing to that
way, change nothing on record of it and are not given it, and those that look through the ways for
what they evict leave it as it is. -/
theorem handler_isolation (hlayout : layout.Disjoint)
    (hboot : GenericCacheManagement.Booted layout cache)
    (hrun : Run (Step strategy program layout) (.initial cache) ls m) (h : InHandler m cpu t r)
    (hosc : osc ∈ (program.trigger r).oscSet) {chunk : Nat × Nat}
    (hchunk : chunk ∈ GenericCacheManagement.chunks layout (layout.getOSCStart osc)
      (layout.getOSCEnd osc)) :
    ∃ way < m.shared.cache.mCacheWayCount,
      (m.shared.cache.mCacheWays way).permanentLocked = false ∧
      (m.shared.cache.mCacheWays way).inUse = true ∧
      (m.shared.cache.mCacheWays way).dataStart = chunk.1 ∧
      (m.shared.cache.mCacheWays way).osc = some osc ∧
      (∀ v < m.shared.cache.mCacheWayCount,
        (m.shared.cache.mCacheWays v).dataStart = chunk.1 → v = way) ∧
      ∀ ls' m', Run (Step strategy program layout) m ls' m' → .eventTaskFinished cpu ∉ ls' →
        (m'.shared.cache.mCacheWays way).record = (m.shared.cache.mCacheWays way).record ∧
        m'.shared.cache.lastOperation way = m.shared.cache.lastOperation way ∧
        (∀ other osc' a, .cache (.getLRUWay other osc' a way) ∉ ls') ∧
        (∀ other, .cache (.prefetchDataToWay other way) ∉ ls') ∧
        ∀ other m'', Step strategy program layout m' (.cache (.evictCacheWay other way)) m'' →
          m''.shared.cache = m'.shared.cache := by
  have hinv := Inv.initial.run hrun
  obtain ⟨huse, hsettled⟩ := useInv_of_run hlayout hboot hrun
  have hplace := hinv.place cpu
  rw [h.control, h.stage] at hplace
  have hidle := hplace.idle_of_outside
  have hpreloaded : osc ∈ (m.shared.cpus cpu).preloaded := by
    have hoscs : taskOSCs (m.dispatcher.trigger program) t = (program.trigger r).oscSet :=
      taskOSCs_eq (by simp [Dispatcher.State.trigger, h.trigger])
    rw [hplace.of_executing, hinv.active cpu, activeOSCs, h.active]
    change osc ∈ taskOSCs (m.dispatcher.trigger program) t
    rwa [hoscs]
  obtain ⟨way, hrec⟩ := hsettled cpu osc hpreloaded (by simp [hidle])
    (by simp [hidle, GenericCacheManagement.Control.place]) chunk hchunk
  have hpos : 0 < chunk.1 := (hlayout.start_pos osc).trans_le hrec.start_le
  refine ⟨way, hrec.lt, hrec.unlocked, hrec.inUse, hrec.dataStart, hrec.osc, fun v hv hstart => ?_,
    fun ls' m' hrun' hls' => ?_⟩
  · exact huse.exclusive.unique way hrec.lt v hv (by rw [hrec.dataStart]; exact hpos.ne')
      (hstart.trans hrec.dataStart.symm)
  · obtain ⟨h', hcaller⟩ := h.run hinv hrun' hls'
    obtain ⟨hrec', hrecord, hoperation, hways, hprefetch⟩ :=
      recordedFor_run_of_other hlayout huse.exclusive hrec (hinv.run_projects hrun').2 hcaller
    have hmem : ∀ {l : SharedLabel (Fin n) O}, .cache l ∈ ls' →
        l ∈ ls'.flatMap (Label.toShared program) := fun hl =>
      List.mem_flatMap.mpr ⟨_, hl, List.mem_singleton_self _⟩
    refine ⟨hrecord, hoperation, fun other osc' a hl => hways other osc' a (hmem hl),
      fun other hl => hprefetch other (hmem hl), fun other m'' hstep => ?_⟩
    obtain ⟨-, hother⟩ := h'.step (hinv.run hrun') hstep (by simp)
    obtain ⟨huse', -⟩ := useInv_of_run hlayout hboot (hrun.append hrun')
    cases hstep with
    | cache hstep =>
      obtain ⟨-, -, -, -, -, hevict⟩ := hrec'.step_of_other hlayout huse'.exclusive hstep
        (hother _ (List.mem_singleton_self _))
      exact hevict other rfl

open GenericCacheManagement (new onePage)

theorem oneTrigger_handler : ∃ (ls : List (Label 2 Unit Bool Unit (Fin 2) (Fin 3)))
    (m : State 2 Unit Bool Unit (Fin 2) (Fin 3)),
    Run (Step multiQueuePriorityStrategy oneTrigger onePage) (.initial (new 2)) ls m ∧
      InHandler m 0 0 () := by
  obtain ⟨ls, m, hrun, -, hcontrol, hstage, hactive, htrigger, -⟩ := oneTrigger_executing
  exact ⟨ls, m, hrun, hcontrol, hstage, hactive, htrigger⟩

theorem onePage_disjoint : onePage.Disjoint := ⟨fun _ => Nat.succ_pos _, fun _ _ _ _ => rfl⟩

theorem chunks_onePage :
    GenericCacheManagement.chunks onePage 0x1000 0x2000 = [(0x1000, 0x2000)] := by
  rw [GenericCacheManagement.chunks_of_lt (by decide),
    GenericCacheManagement.chunks_of_not_lt (by decide)]
  rfl

/-- The handler of CPU 0 has the page of its component. -/
theorem handler_isolation_onePage : ∃ (ls : List (Label 2 Unit Bool Unit (Fin 2) (Fin 3)))
    (m : State 2 Unit Bool Unit (Fin 2) (Fin 3)),
    Run (Step multiQueuePriorityStrategy oneTrigger onePage) (.initial (new 2)) ls m ∧
      ∃ way < m.shared.cache.mCacheWayCount,
        (m.shared.cache.mCacheWays way).dataStart = 0x1000 ∧
        ∀ ls' m', Run (Step multiQueuePriorityStrategy oneTrigger onePage) m ls' m' →
          .eventTaskFinished 0 ∉ ls' →
          (m'.shared.cache.mCacheWays way).record = (m.shared.cache.mCacheWays way).record := by
  obtain ⟨ls, m, hrun, h⟩ := oneTrigger_handler
  have hchunk : (0x1000, 0x2000) ∈ GenericCacheManagement.chunks onePage 0x1000 0x2000 := by
    simp [chunks_onePage]
  obtain ⟨way, hway, -, -, hstart, -, -, hkept⟩ :=
    handler_isolation onePage_disjoint (.new 2) hrun h (by decide : () ∈ _) hchunk
  exact ⟨ls, m, hrun, way, hway, hstart, fun ls' m' hrun' hls' => (hkept ls' m' hrun' hls').1⟩

/-! ## No way is left behind -/

omit [DecidableEq O] [DecidableEq Q] in
theorem Inv.activeOSCs_of_mem (h : Inv strategy program m)
    (hosc : osc ∈ (m.shared.cpus cpu).active) :
    ∃ t r, m.dispatcher.pActiveEventTask cpu = some t ∧
      (m.dispatcher.eventTask t).trigger = some r ∧
      (m.shared.cpus cpu).active = (program.trigger r).oscSet := by
  rw [h.active cpu] at hosc ⊢
  cases hactive : m.dispatcher.pActiveEventTask cpu with
  | none => simp [activeOSCs, hactive] at hosc
  | some t =>
    cases htrigger : (m.dispatcher.eventTask t).trigger with
    | none => simp [activeOSCs, hactive, taskOSCs, Dispatcher.State.trigger, htrigger] at hosc
    | some r =>
      exact ⟨t, r, rfl, htrigger, by
        simp [activeOSCs, hactive, taskOSCs, Dispatcher.State.trigger, htrigger]⟩

/-- A way is in use only for a part of a component of a locked task, while the CPU that has locked
it preloads its components, runs its handler or evicts them. The ways in use are never more than the
parts of the locked tasks. -/
theorem ways_released (hlayout : layout.Disjoint)
    (hboot : GenericCacheManagement.Booted layout cache)
    (hrun : Run (Step strategy program layout) (.initial cache) ls m) :
    (∀ way, (m.shared.cache.mCacheWays way).inUse = true → ∃ cpu t r,
      m.dispatcher.pActiveEventTask cpu = some t ∧
      (m.dispatcher.eventTask t).trigger = some r ∧
      (m.stage cpu = .outside → InHandler m cpu t r) ∧
      ∃ part ∈ parts layout (program.trigger r).oscSet,
        GenericCacheManagement.UsedFor layout m.shared.cache (m.shared.cpus cpu) part.1 part.2
          way) ∧
      (waysInUse m.shared.cache).card ≤
        ∑ cpu, (parts layout (activeOSCs program m.dispatcher cpu)).card := by
  have hinv := Inv.initial.run hrun
  obtain ⟨huse, -⟩ := useInv_of_run hlayout hboot hrun
  refine ⟨fun way hway => ?_, ?_⟩
  · obtain ⟨cpu, ⟨osc, dataStart⟩, hpart, hused⟩ := huse.used_part hway
    obtain ⟨hosc, -⟩ := GenericCacheManagement.mem_parts.mp hpart
    obtain ⟨t, r, hactive, htrigger, hoscs⟩ := hinv.activeOSCs_of_mem hosc
    refine ⟨cpu, t, r, hactive, htrigger, fun hstage => ⟨?_, hstage, hactive, htrigger⟩, _,
      hoscs ▸ hpart, hused⟩
    by_contra hcontrol
    have hnone := (hstage ▸ hinv.place cpu).preloaded_of_outside hcontrol
    have hpreloaded := (hused.holds huse.exclusive).preloaded
    rw [hnone] at hpreloaded
    cases hpreloaded
  · refine (huse.card_waysInUse hlayout).trans_eq (Finset.sum_congr rfl fun cpu _ => ?_)
    rw [hinv.active cpu]

/-- The way of the handler of CPU 0 is the only one in use. -/
theorem ways_released_onePage : ∃ (ls : List (Label 2 Unit Bool Unit (Fin 2) (Fin 3)))
    (m : State 2 Unit Bool Unit (Fin 2) (Fin 3)),
    Run (Step multiQueuePriorityStrategy oneTrigger onePage) (.initial (new 2)) ls m ∧
      InHandler m 0 0 () ∧ (waysInUse m.shared.cache).card ≤
        ∑ cpu, (parts onePage (activeOSCs oneTrigger m.dispatcher cpu)).card := by
  obtain ⟨ls, m, hrun, h⟩ := oneTrigger_handler
  exact ⟨ls, m, hrun, h, (ways_released onePage_disjoint (.new 2) hrun).2⟩

end ActivateOSC
end CyPhOS
