import CyPhOS.CacheManagement.WayUse
import CyPhOS.EventHandling.Affinity

/-! # Activating components

The dispatcher and the cache management together. `activateOSC` preloads the component of a task and
its dependencies before the task runs, and `eventTaskFinished` evicts them before the task is
unlocked; between the steps of these loops the other CPUs go on. `Stage` is the place of a CPU in
one of the two.

The state of the cache management is the one of `SharedStep`, whose lists of active and preloaded
components are written here and never read. `activateOSC_projects` says that the cache management runs
under what `SharedStep` takes for granted: no component is active on two CPUs, and what a CPU has
preloaded it evicts before it unlocks its task.
-/

namespace CyPhOS

open Transition

namespace ActivateOSC

open GenericCacheManagement (SharedState SharedLabel SharedStep CpuState)

/-- Where a CPU is in `activateOSC` or `eventTaskFinished`, with the components that it has not come
to. -/
inductive Stage (O : Type)
  | outside
  | preloadOSC (rest : List O)
  | evictOSC (rest : List O)
  deriving DecidableEq

structure State (n : Nat) (O E R T Q : Type) where
  dispatcher : Dispatcher.State n E R T Q
  shared : SharedState (Fin n) O
  stage : Fin n → Stage O

inductive Label (n : Nat) (O E R T Q : Type)
  | dispatcher (l : Dispatcher.Label n E R T Q)
  | activateOSC (cpu : Fin n)
  | eventTaskFinished (cpu : Fin n)
  | preloadSingleOSC (cpu : Fin n) (osc : O)
  | lookupAndEvictOSC (cpu : Fin n) (osc : O)
  | cache (l : SharedLabel (Fin n) O)

/-- The steps of the dispatcher that have nothing to do with the cache. -/
def Uncached {n : Nat} {E R T Q : Type} : Dispatcher.Label n E R T Q → Prop
  | .locked .. | .activate _ | .eventTaskFinished _ => False
  | _ => True

/-- The steps inside a preload or an eviction. -/
def Inside {C O : Type} : SharedLabel C O → Prop
  | .activate .. | .preloadSingleOSC .. | .lookupAndEvictOSC .. => False
  | _ => True

variable {n : Nat} {O E R T Q : Type}

/-- The components that `preloadOSC` and `evictOSC` go through. -/
def components (osc : O) (trigger : Trigger O) : List O :=
  osc :: Trigger.depSet trigger.pDeps.entries

theorem components_eq {osc : O} {trigger : Trigger O} (h : trigger.pDestinationOSC = some osc) :
    components osc trigger = trigger.oscSet := by
  simp [components, Trigger.oscSet, h]

namespace State

def setStage (m : State n O E R T Q) (cpu : Fin n) (stage : Stage O) : State n O E R T Q :=
  { m with stage := Function.update m.stage cpu stage }

/-- Note the components of the task that the CPU has locked. -/
def setActive (m : State n O E R T Q) (cpu : Fin n) (active : List O) : State n O E R T Q :=
  { m with shared := m.shared.set m.shared.cache cpu { m.shared.cpus cpu with active } }

/-- The CPU is in no preload and in no eviction. -/
def Idle (m : State n O E R T Q) (cpu : Fin n) : Prop := (m.shared.cpus cpu).control = .idle

/-- After the constructors and the preloads of critical data. -/
def initial (cache : GenericCacheManagement O) : State n O E R T Q :=
  ⟨.initial, .initial cache, fun _ => .outside⟩

section
variable {m : State n O E R T Q} {cpu other : Fin n} {stage : Stage O} {active : List O}

@[simp] theorem setStage_dispatcher : (m.setStage cpu stage).dispatcher = m.dispatcher := rfl

@[simp] theorem setStage_shared : (m.setStage cpu stage).shared = m.shared := rfl

@[simp] theorem setStage_self : (m.setStage cpu stage).stage cpu = stage :=
  Function.update_self ..

theorem setStage_of_ne (h : other ≠ cpu) : (m.setStage cpu stage).stage other = m.stage other :=
  Function.update_of_ne h ..

@[simp] theorem setActive_dispatcher : (m.setActive cpu active).dispatcher = m.dispatcher := rfl

@[simp] theorem setActive_stage : (m.setActive cpu active).stage = m.stage := rfl

@[simp] theorem setActive_self :
    (m.setActive cpu active).shared.cpus cpu = { m.shared.cpus cpu with active } :=
  SharedState.set_cpus_self

theorem setActive_of_ne (h : other ≠ cpu) :
    (m.setActive cpu active).shared.cpus other = m.shared.cpus other :=
  SharedState.set_cpus_of_ne h

end

end State

section
variable [DecidableEq O] [DecidableEq T] [Fintype T] [DecidableEq Q]
  (strategy : Strategy n O T Q) (program : Program O E R) (layout : MemoryLayout O)

inductive Step : State n O E R T Q → Label n O E R T Q → State n O E R T Q → Prop
  | dispatcher {m l d} (hstep : Dispatcher.Step strategy program m.dispatcher l d)
      (hl : Uncached l) : Step m (.dispatcher l) { m with dispatcher := d }
  | locked {m cpu q t r d}
      (hstep : Dispatcher.Step strategy program m.dispatcher (.locked cpu q t r) d) :
      Step m (.dispatcher (.locked cpu q t r))
        ({ m with dispatcher := d }.setActive cpu (program.trigger r).oscSet)
  | activateNone {m cpu task} (hcontrol : m.dispatcher.control cpu = .returned task)
      (hnone : task = none ∨ task ≠ m.dispatcher.pActiveEventTask cpu) :
      Step m (.dispatcher (.activate cpu))
        { m with dispatcher := m.dispatcher.activate cpu task }
  | activateOSC {m cpu t r osc} (hcontrol : m.dispatcher.control cpu = .returned (some t))
      (hactive : m.dispatcher.pActiveEventTask cpu = some t) (hstage : m.stage cpu = .outside)
      (htrigger : (m.dispatcher.eventTask t).trigger = some r)
      (hosc : (program.trigger r).pDestinationOSC = some osc) :
      Step m (.activateOSC cpu)
        (m.setStage cpu (.preloadOSC (components osc (program.trigger r))))
  | preloadSingleOSC {m cpu osc rest} (hstage : m.stage cpu = .preloadOSC (osc :: rest))
      (hidle : m.Idle cpu) :
      Step m (.preloadSingleOSC cpu osc)
        { m.setStage cpu (.preloadOSC rest) with
          shared := m.shared.set m.shared.cache cpu
            { m.shared.cpus cpu with
              preloaded := osc :: (m.shared.cpus cpu).preloaded
              control := .preload osc (layout.getOSCStart osc) false } }
  | activate {m cpu t} (hstage : m.stage cpu = .preloadOSC []) (hidle : m.Idle cpu)
      (hcontrol : m.dispatcher.control cpu = .returned (some t)) :
      Step m (.dispatcher (.activate cpu))
        { m.setStage cpu .outside with dispatcher := m.dispatcher.activate cpu (some t) }
  | eventTaskFinished {m cpu t r osc} (hcontrol : m.dispatcher.control cpu = .executing)
      (hactive : m.dispatcher.pActiveEventTask cpu = some t) (hstage : m.stage cpu = .outside)
      (htrigger : (m.dispatcher.eventTask t).trigger = some r)
      (hosc : (program.trigger r).pDestinationOSC = some osc) :
      Step m (.eventTaskFinished cpu)
        (m.setStage cpu (.evictOSC (components osc (program.trigger r))))
  | lookupAndEvictOSC {m cpu osc rest} (hstage : m.stage cpu = .evictOSC (osc :: rest))
      (hidle : m.Idle cpu) :
      Step m (.lookupAndEvictOSC cpu osc)
        { m.setStage cpu (.evictOSC rest) with
          shared := m.shared.goto m.shared.cache cpu (.evict osc 0) }
  | unlockTask {m cpu t} (hstage : m.stage cpu = .evictOSC []) (hidle : m.Idle cpu)
      (hactive : m.dispatcher.pActiveEventTask cpu = some t) :
      Step m (.dispatcher (.eventTaskFinished cpu))
        ({ m.setStage cpu .outside with
          dispatcher := (m.dispatcher.eventTaskFinished cpu t).goto cpu .dispatching }.setActive
            cpu [])
  | cache {m l s} (hstep : SharedStep layout m.shared l s) (hl : Inside l) :
      Step m (.cache l) { m with shared := s }

end

/-- The steps of the dispatcher in a run. -/
def Label.toDispatcher : Label n O E R T Q → List (Dispatcher.Label n E R T Q)
  | dispatcher l => [l]
  | _ => []

/-- The steps of the cache management in a run. To lock a task makes its components active, and to
unlock it leaves none active. -/
def Label.toShared (program : Program O E R) :
    Label n O E R T Q → List (SharedLabel (Fin n) O)
  | dispatcher (.locked cpu _ _ r) => [.activate cpu (program.trigger r).oscSet]
  | dispatcher (.eventTaskFinished cpu) => [.activate cpu []]
  | preloadSingleOSC cpu osc => [.preloadSingleOSC cpu osc]
  | lookupAndEvictOSC cpu osc => [.lookupAndEvictOSC cpu osc]
  | cache l => [l]
  | _ => []

/-! ## The place of a CPU -/

/-- The components of the task that a CPU has locked. -/
def activeOSCs [DecidableEq T] (program : Program O E R) (d : Dispatcher.State n E R T Q)
    (cpu : Fin n) : List O :=
  match d.pActiveEventTask cpu with
  | none => []
  | some t => taskOSCs (d.trigger program) t

/-- What the place of a CPU says about its components. Those in front of the rest have been
preloaded, and only the rest has still to be evicted. -/
inductive Place : Dispatcher.Control T Q → Stage O → CpuState O → Prop
  | outside {c x} (hc : c ≠ .executing) (hidle : x.control = .idle)
      (hpreloaded : x.preloaded = []) : Place c .outside x
  | preloadOSC {t x done rest} (hactive : x.active = done ++ rest)
      (hpreloaded : ∀ osc, osc ∈ x.preloaded ↔ osc ∈ done)
      (hcontrol : ∀ osc way, x.control ≠ .evict osc way) :
      Place (.returned (some t)) (.preloadOSC rest) x
  | executing {x} (hidle : x.control = .idle)
      (hpreloaded : ∀ osc, osc ∈ x.preloaded ↔ osc ∈ x.active) : Place .executing .outside x
  | evictOSC {x rest} (hrest : rest ⊆ x.active)
      (hpreloaded : ∀ osc ∈ x.preloaded, osc ∈ rest ∨ ∃ way, x.control = .evict osc way)
      (hcontrol : x.control = .idle ∨ ∃ osc way, x.control = .evict osc way) :
      Place .executing (.evictOSC rest) x

/-- The invariant of all runs. The active components of a CPU are those of the task it has
locked. -/
structure Inv [DecidableEq T] [Fintype T] (strategy : Strategy n O T Q) (program : Program O E R)
    (m : State n O E R T Q) : Prop where
  good : ∃ lists, Dispatcher.Good strategy program m.dispatcher lists
  active : ∀ cpu, (m.shared.cpus cpu).active = activeOSCs program m.dispatcher cpu
  place : ∀ cpu, Place (m.dispatcher.control cpu) (m.stage cpu) (m.shared.cpus cpu)

section
variable {x x' : CpuState O} {c : Dispatcher.Control T Q} {stage : Stage O}

theorem Place.idle_of_outside (h : Place c .outside x) : x.control = .idle := by
  cases h <;> assumption

theorem Place.preloaded_of_outside (h : Place c .outside x) (hc : c ≠ .executing) :
    x.preloaded = [] := by
  cases h with
  | outside _ _ hpreloaded => exact hpreloaded
  | executing => exact absurd rfl hc

/-- A handler runs when the components of its task have been preloaded. -/
theorem Place.of_executing (h : Place (.executing : Dispatcher.Control T Q) .outside x) (osc : O) :
    osc ∈ x.preloaded ↔ osc ∈ x.active := by
  cases h with
  | outside hc => exact absurd rfl hc
  | executing _ hpreloaded => exact hpreloaded osc

theorem Place.of_preloadOSC {rest : List O} (h : Place c (.preloadOSC rest) x) :
    ∃ t done, c = .returned (some t) ∧ x.active = done ++ rest ∧
      (∀ osc, osc ∈ x.preloaded ↔ osc ∈ done) ∧ ∀ osc way, x.control ≠ .evict osc way := by
  cases h with
  | preloadOSC hactive hpreloaded hcontrol => exact ⟨_, _, rfl, hactive, hpreloaded, hcontrol⟩

theorem Place.of_evictOSC {rest : List O} (h : Place c (.evictOSC rest) x) :
    c = .executing ∧ rest ⊆ x.active ∧
      (∀ osc ∈ x.preloaded, osc ∈ rest ∨ ∃ way, x.control = .evict osc way) ∧
      (x.control = .idle ∨ ∃ osc way, x.control = .evict osc way) := by
  cases h with
  | evictOSC hrest hpreloaded hcontrol => exact ⟨rfl, hrest, hpreloaded, hcontrol⟩

/-- Before `getEvent` has returned a task, nothing is preloaded. -/
theorem Place.outside_of_searching (h : Place c stage x) (hc : c ≠ .executing)
    (hreturned : ∀ t, c ≠ .returned (some t)) : stage = .outside ∧ x.preloaded = [] := by
  cases h with
  | outside _ _ hpreloaded => exact ⟨rfl, hpreloaded⟩
  | preloadOSC => exact absurd rfl (hreturned _)
  | executing | evictOSC => exact absurd rfl hc

/-- `activateOSC` begins to go through the components. -/
theorem Place.preloads {t : T} (h : Place (.returned (some t) : Dispatcher.Control T Q) .outside x) :
    Place (.returned (some t) : Dispatcher.Control T Q) (.preloadOSC x.active) x := by
  have hpreloaded := h.preloaded_of_outside (by simp)
  have hidle := h.idle_of_outside
  exact .preloadOSC (List.nil_append _).symm (by simp [hpreloaded]) (by simp [hidle])

theorem Place.preloadSingleOSC {osc : O} {rest : List O} {oscStart : Nat}
    (h : Place c (.preloadOSC (osc :: rest)) x) :
    Place c (.preloadOSC rest)
      { x with preloaded := osc :: x.preloaded, control := .preload osc oscStart false } := by
  obtain ⟨t, done, rfl, hactive, hpreloaded, -⟩ := h.of_preloadOSC
  have hsplit : x.active = (done ++ [osc]) ++ rest := by simp [hactive]
  refine .preloadOSC hsplit (fun o => ?_) (by simp)
  simp [hpreloaded, or_comm]

theorem Place.activates {t : T} (h : Place (.returned (some t) : Dispatcher.Control T Q)
    (.preloadOSC []) x) (hidle : x.control = .idle) :
    Place (.executing : Dispatcher.Control T Q) .outside x := by
  obtain ⟨-, done, -, hactive, hpreloaded, -⟩ := h.of_preloadOSC
  refine .executing hidle fun o => ?_
  rw [hpreloaded o, hactive, List.append_nil]

/-- `eventTaskFinished` begins to go through the components. -/
theorem Place.evicts (h : Place (.executing : Dispatcher.Control T Q) .outside x) :
    Place (.executing : Dispatcher.Control T Q) (.evictOSC x.active) x :=
  .evictOSC (List.Subset.refl _) (fun o ho => .inl ((h.of_executing o).mp ho))
    (.inl h.idle_of_outside)

theorem Place.lookupAndEvictOSC {osc : O} {rest : List O} (h : Place c (.evictOSC (osc :: rest)) x)
    (hidle : x.control = .idle) :
    Place c (.evictOSC rest) { x with control := .evict osc 0 } := by
  obtain ⟨rfl, hrest, hpreloaded, -⟩ := h.of_evictOSC
  refine .evictOSC (fun o ho => hrest (List.mem_cons_of_mem _ ho)) (fun o ho => ?_)
    (.inr ⟨osc, 0, rfl⟩)
  rcases hpreloaded o ho with ho | ⟨way, hevict⟩
  · rcases List.mem_cons.mp ho with rfl | ho
    · exact .inr ⟨0, rfl⟩
    · exact .inl ho
  · rw [hidle] at hevict
    cases hevict

/-- When the last component has been evicted, nothing is preloaded any more. -/
theorem Place.preloaded_of_evicted (h : Place c (.evictOSC []) x) (hidle : x.control = .idle) :
    x.preloaded = [] := by
  obtain ⟨-, -, hpreloaded, -⟩ := h.of_evictOSC
  refine List.eq_nil_iff_forall_not_mem.mpr fun o ho => ?_
  rcases hpreloaded o ho with hnil | ⟨way, hevict⟩
  · cases hnil
  · rw [hidle] at hevict
    cases hevict

end

section
variable [DecidableEq O] [DecidableEq T] [Fintype T] [DecidableEq Q]
  {strategy : Strategy n O T Q} {program : Program O E R} {layout : MemoryLayout O}
  {m m' : State n O E R T Q} {s s' : SharedState (Fin n) O} {cpu : Fin n}
  {d d' : Dispatcher.State n E R T Q} {lists : Q → List T}

/-! ## Steps -/

/-- What a step inside a preload or an eviction does to the components of its CPU. -/
theorem inside_cases {l : SharedLabel (Fin n) O} (h : SharedStep layout s l s') (hl : Inside l) :
    (s'.cpus l.caller).active = (s.cpus l.caller).active ∧
      ((∀ osc way, (s.cpus l.caller).control ≠ .evict osc way) ∧
          (s.cpus l.caller).control ≠ .idle ∧
          (∀ osc way, (s'.cpus l.caller).control ≠ .evict osc way) ∧
          (s'.cpus l.caller).preloaded = (s.cpus l.caller).preloaded ∨
        ∃ osc way, (s.cpus l.caller).control = .evict osc way ∧
          ((s'.cpus l.caller).control = .evict osc (way + 1) ∧
              (s'.cpus l.caller).preloaded = (s.cpus l.caller).preloaded ∨
            (s'.cpus l.caller).control = .idle ∧
              (s'.cpus l.caller).preloaded =
                (s.cpus l.caller).preloaded.filter (· ≠ osc))) := by
  cases h with
  | activate | preloadSingleOSC | lookupAndEvictOSC => exact hl.elim
  | evictCacheWay hcontrol | freeOSC hcontrol =>
    simp [SharedLabel.caller, hcontrol]
  | getLRUWay hcontrol | noWay hcontrol | skipPreload hcontrol | prefetchDataToWay hcontrol
  | setDataStart hcontrol | setDataEnd hcontrol | setOsc hcontrol | preloaded hcontrol =>
    simp [SharedLabel.caller, hcontrol]

omit [DecidableEq T] [Fintype T] [DecidableEq Q] in
theorem Place.inside {l : SharedLabel (Fin n) O} {c : Dispatcher.Control T Q} {stage : Stage O}
    (h : Place c stage (s.cpus l.caller)) (hstep : SharedStep layout s l s') (hl : Inside l) :
    Place c stage (s'.cpus l.caller) := by
  obtain ⟨hactive, ⟨hevict, hidle, hevict', hpreloaded⟩ | ⟨osc, way, hcontrol, hcases⟩⟩ :=
    inside_cases hstep hl
  · cases h with
    | outside _ hidle' | executing hidle' => exact absurd hidle' hidle
    | preloadOSC hsplit hdone =>
      refine .preloadOSC (hactive.trans hsplit) (fun osc => ?_) hevict'
      rw [hpreloaded]
      exact hdone osc
    | evictOSC _ _ hcontrol =>
      rcases hcontrol with hcontrol | ⟨osc, way, hcontrol⟩
      · exact absurd hcontrol hidle
      · exact absurd hcontrol (hevict osc way)
  · cases h with
    | outside _ hidle | executing hidle => simp [hcontrol] at hidle
    | preloadOSC _ _ hevict => exact absurd hcontrol (hevict osc way)
    | evictOSC hrest hkept _ =>
      rcases hcases with ⟨hcontrol', hpreloaded⟩ | ⟨hcontrol', hpreloaded⟩
      · refine .evictOSC (hactive ▸ hrest) (fun o ho => ?_) (.inr ⟨osc, way + 1, hcontrol'⟩)
        refine (hkept o (hpreloaded ▸ ho)).imp_right fun he => ?_
        obtain ⟨way', he⟩ := he
        rw [hcontrol] at he
        cases he
        exact ⟨_, hcontrol'⟩
      · refine .evictOSC (hactive ▸ hrest) (fun o ho => ?_) (.inl hcontrol')
        rw [hpreloaded] at ho
        obtain ⟨ho, hne⟩ := List.mem_filter.mp ho
        refine (hkept o ho).imp_right fun he => ?_
        obtain ⟨way', he⟩ := he
        rw [hcontrol] at he
        cases he
        simp at hne

/-- A CPU that moves in the dispatcher otherwise has not come to a task, or has just done so. -/
theorem control_of_uncached (hgood : Dispatcher.Good strategy program d lists)
    {l : Dispatcher.Label n E R T Q} (h : Dispatcher.Step strategy program d l d')
    (hl : Uncached l) (hcpu : l.cpu = some cpu) :
    d.control cpu ≠ .executing ∧ (∀ t, d.control cpu ≠ .returned (some t)) ∧
      d'.control cpu ≠ .executing := by
  cases h with
  | enqueueEvent => cases hcpu
  | locked | activate | eventTaskFinished => exact hl.elim
  | requeue hcontrol => exact (hgood.agrees hcontrol).elim
  | releaseStack hcontrol | getEvent hcontrol | lockQueue hcontrol | refused hcontrol
  | unlockQueue hcontrol | noEvent hcontrol | getFreeStack hcontrol | noStack hcontrol =>
    cases hcpu
    simp [hcontrol, Dispatcher.State.goto]

/-- The components of a CPU change when it locks a task and when it unlocks it. -/
theorem activeOSCs_of_step (hgood : Dispatcher.Good strategy program d lists)
    {l : Dispatcher.Label n E R T Q} (h : Dispatcher.Step strategy program d l d')
    (hlocked : ∀ q t r, l ≠ .locked cpu q t r) (hfinished : l ≠ .eventTaskFinished cpu) :
    activeOSCs program d' cpu = activeOSCs program d cpu := by
  cases hactive : d.pActiveEventTask cpu with
  | none =>
    have hnone : d'.pActiveEventTask cpu = none := by
      cases hactive' : d'.pActiveEventTask cpu with
      | none => rfl
      | some t =>
        rcases hgood.active_cases h hactive' with ⟨hold, -⟩ | ⟨q, r, hl⟩
        · rw [hactive] at hold
          cases hold
        · exact absurd hl (hlocked q t r)
    simp [activeOSCs, hactive, hnone]
  | some t =>
    obtain ⟨hactive', htrigger⟩ := hgood.active_keep h hactive hfinished
    simp [activeOSCs, hactive, hactive', taskOSCs, Dispatcher.State.trigger, htrigger]

/-- A step of the dispatcher leaves the other CPUs where they are. -/
theorem others_of_step (hgood : Dispatcher.Good strategy program d lists)
    {l : Dispatcher.Label n E R T Q} (h : Dispatcher.Step strategy program d l d')
    (hl : l.cpu = some cpu) {other : Fin n} (hne : other ≠ cpu) :
    d'.control other = d.control other ∧
      activeOSCs program d' other = activeOSCs program d other := by
  have hother : l.cpu ≠ some other := by
    rw [hl]
    exact fun e => hne (Option.some.inj e).symm
  refine ⟨hgood.control_of_ne h hother, activeOSCs_of_step hgood h ?_ ?_⟩
  · rintro q t r rfl
    exact hother rfl
  · rintro rfl
    exact hother rfl

/-- Only the components of its own task become active on a CPU, and they are not active
elsewhere. -/
theorem Inv.locked (h : Inv strategy program m) {q : Q} {t : T} {r : R}
    (hstep : Dispatcher.Step strategy program m.dispatcher (.locked cpu q t r) d) :
    m.stage cpu = .outside ∧ (m.shared.cpus cpu).preloaded = [] ∧
      activeOSCs program d cpu = (program.trigger r).oscSet ∧
      d.control cpu = .dequeued t ∧
      ∀ other ≠ cpu, ∀ osc ∈ (program.trigger r).oscSet, osc ∉ (m.shared.cpus other).active := by
  obtain ⟨lists, hgood⟩ := h.good
  cases hstep with
  | @locked _ _ _ rest active _ hcontrol hcall htrigger =>
    have hplace := h.place cpu
    rw [hcontrol] at hplace
    obtain ⟨hstage, hpreloaded⟩ := hplace.outside_of_searching (by simp) (by simp)
    obtain ⟨⟨tr, osc, htr, hosc⟩, -⟩ := tryTaskLock_cases hcall
    have hcpu : m.dispatcher.pActiveEventTask cpu = none := hgood.agrees hcontrol
    obtain ⟨_, _, hcall', hfree, hactive, -⟩ :=
      tryTaskLock_spec htr hosc hgood.triggered_active hcpu
    cases hcall.symm.trans hcall'
    obtain rfl := hactive rfl
    have hoscs : taskOSCs (m.dispatcher.trigger program) t = (program.trigger r).oscSet :=
      taskOSCs_eq (by simp [Dispatcher.State.trigger, htrigger])
    refine ⟨hstage, hpreloaded, ?_, Dispatcher.State.goto_control_self,
      fun other hne osc hosc hother => ?_⟩
    · rw [← hoscs]
      simp [activeOSCs, Dispatcher.State.goto]
      rfl
    · rw [h.active other, activeOSCs] at hother
      cases hu : m.dispatcher.pActiveEventTask other with
      | none => simp [hu] at hother
      | some u =>
        rw [hu] at hother
        exact hfree.mp rfl other u hne hu (hoscs ▸ hosc) hother

omit [DecidableEq O] [DecidableEq Q] in
/-- The components that a CPU goes through are its active ones. -/
theorem Inv.components_eq (h : Inv strategy program m) {t : T} {r : R} {osc : O}
    (hactive : m.dispatcher.pActiveEventTask cpu = some t)
    (htrigger : (m.dispatcher.eventTask t).trigger = some r)
    (hosc : (program.trigger r).pDestinationOSC = some osc) :
    components osc (program.trigger r) = (m.shared.cpus cpu).active := by
  have hoscs : taskOSCs (m.dispatcher.trigger program) t = (program.trigger r).oscSet :=
    taskOSCs_eq (by simp [Dispatcher.State.trigger, htrigger])
  rw [ActivateOSC.components_eq hosc, h.active cpu, activeOSCs, hactive]
  exact hoscs.symm

/-- A step is one of the dispatcher, one of the cache management, both or none. -/
theorem Inv.projects (h : Inv strategy program m) {l : Label n O E R T Q}
    (hstep : Step strategy program layout m l m') :
    Run (Dispatcher.Step strategy program) m.dispatcher l.toDispatcher m'.dispatcher ∧
      Run (SharedStep layout) m.shared (l.toShared program) m'.shared := by
  cases hstep with
  | @dispatcher l d hstep hl =>
    refine ⟨.single hstep, ?_⟩
    cases l with
    | locked | activate | eventTaskFinished => exact hl.elim
    | _ => exact .nil
  | @locked cpu q t r d hstep =>
    obtain ⟨hstage, hpreloaded, -, -, hfree⟩ := h.locked hstep
    have hidle := (hstage ▸ h.place cpu).idle_of_outside
    exact ⟨.single hstep, .single (.activate hidle (by simp [hpreloaded]) hfree)⟩
  | activateNone hcontrol => exact ⟨.single (.activate hcontrol), .nil⟩
  | activateOSC => exact ⟨.nil, .nil⟩
  | @preloadSingleOSC cpu osc rest hstage hidle =>
    refine ⟨.nil, .single (.preloadSingleOSC hidle ?_)⟩
    obtain ⟨t, done, -, hactive, -⟩ := (hstage ▸ h.place cpu).of_preloadOSC
    simp [hactive]
  | activate _ _ hcontrol => exact ⟨.single (.activate hcontrol), .nil⟩
  | eventTaskFinished => exact ⟨.nil, .nil⟩
  | @lookupAndEvictOSC cpu osc rest hstage hidle =>
    refine ⟨.nil, .single (.lookupAndEvictOSC hidle ?_)⟩
    obtain ⟨-, hrest, -⟩ := (hstage ▸ h.place cpu).of_evictOSC
    exact hrest List.mem_cons_self
  | @unlockTask cpu t hstage hidle hactive =>
    have hplace := hstage ▸ h.place cpu
    obtain ⟨hcontrol, -⟩ := hplace.of_evictOSC
    have hnone := hplace.preloaded_of_evicted hidle
    exact ⟨.single (.eventTaskFinished hcontrol hactive),
      .single (.activate hidle (by simp [hnone]) (by simp))⟩
  | cache hstep hl => exact ⟨.nil, .single hstep⟩

variable (cpu) in
omit [DecidableEq O] [DecidableEq Q] in
/-- One CPU moves. -/
theorem Inv.move (h : Inv strategy program m)
    (hgood : ∃ lists, Dispatcher.Good strategy program m'.dispatcher lists)
    (hothers : ∀ other ≠ cpu, m'.dispatcher.control other = m.dispatcher.control other ∧
      m'.stage other = m.stage other ∧ m'.shared.cpus other = m.shared.cpus other ∧
      activeOSCs program m'.dispatcher other = activeOSCs program m.dispatcher other)
    (hactive : (m'.shared.cpus cpu).active = activeOSCs program m'.dispatcher cpu)
    (hplace : Place (m'.dispatcher.control cpu) (m'.stage cpu) (m'.shared.cpus cpu)) :
    Inv strategy program m' := by
  refine ⟨hgood, fun other => ?_, fun other => ?_⟩ <;> rcases eq_or_ne other cpu with rfl | hne
  · exact hactive
  · obtain ⟨-, -, hcpus, hoscs⟩ := hothers other hne
    rw [hcpus, hoscs]
    exact h.active other
  · exact hplace
  · obtain ⟨hcontrol, hstage, hcpus, -⟩ := hothers other hne
    rw [hcontrol, hstage, hcpus]
    exact h.place other

/-- One CPU moves by a step of the dispatcher. -/
theorem Inv.dispatched (h : Inv strategy program m) {l : Dispatcher.Label n E R T Q}
    {stage : Fin n → Stage O} (hstep : Dispatcher.Step strategy program m.dispatcher l d)
    (hl : l.cpu = some cpu) (hstage : ∀ other ≠ cpu, stage other = m.stage other)
    (hcpus : ∀ other ≠ cpu, s.cpus other = m.shared.cpus other)
    (hactive : (s.cpus cpu).active = activeOSCs program d cpu)
    (hplace : Place (d.control cpu) (stage cpu) (s.cpus cpu)) :
    Inv strategy program { dispatcher := d, shared := s, stage := stage } := by
  obtain ⟨lists, hgood⟩ := h.good
  obtain ⟨lists', hgood', -⟩ := hgood.step hstep
  refine h.move cpu ⟨lists', hgood'⟩ (fun other hne => ?_) hactive hplace
  obtain ⟨hcontrol, hoscs⟩ := others_of_step hgood hstep hl hne
  exact ⟨hcontrol, hstage other hne, hcpus other hne, hoscs⟩

/-- A step of the dispatcher that locks no task and unlocks none. -/
theorem Inv.active_of_step (h : Inv strategy program m) {l : Dispatcher.Label n E R T Q}
    (hstep : Dispatcher.Step strategy program m.dispatcher l d)
    (hlocked : ∀ q t r, l ≠ .locked cpu q t r) (hfinished : l ≠ .eventTaskFinished cpu) :
    (m.shared.cpus cpu).active = activeOSCs program d cpu := by
  obtain ⟨lists, hgood⟩ := h.good
  exact (h.active cpu).trans (activeOSCs_of_step hgood hstep hlocked hfinished).symm

omit [DecidableEq O] [DecidableEq Q] in
/-- One CPU goes on in a preload or an eviction. -/
theorem Inv.set (h : Inv strategy program m) {stage : Stage O} {c : GenericCacheManagement O}
    {x : CpuState O} (hactive : x.active = (m.shared.cpus cpu).active)
    (hplace : Place (m.dispatcher.control cpu) stage x) :
    Inv strategy program { m.setStage cpu stage with shared := m.shared.set c cpu x } := by
  refine h.move cpu h.good (fun other hne => ?_) ?_ ?_
  · exact ⟨rfl, State.setStage_of_ne hne, SharedState.set_cpus_of_ne hne, rfl⟩
  · simpa using hactive.trans (h.active cpu)
  · simpa using hplace

omit [DecidableEq O] [DecidableEq Q] in
theorem Inv.setStage (h : Inv strategy program m) {stage : Stage O}
    (hplace : Place (m.dispatcher.control cpu) stage (m.shared.cpus cpu)) :
    Inv strategy program (m.setStage cpu stage) := by
  refine h.move cpu h.good (fun other hne => ?_) (h.active cpu) ?_
  · exact ⟨rfl, State.setStage_of_ne hne, rfl, rfl⟩
  · simpa using hplace

/-- A CPU that is in no preload and in no eviction moves in the dispatcher. -/
theorem Inv.uncached (h : Inv strategy program m) {l : Dispatcher.Label n E R T Q}
    (hstep : Dispatcher.Step strategy program m.dispatcher l d) (hl : Uncached l) :
    Inv strategy program { m with dispatcher := d } := by
  obtain ⟨lists, hgood⟩ := h.good
  obtain ⟨lists', hgood', -⟩ := hgood.step hstep
  refine ⟨⟨lists', hgood'⟩, fun cpu => h.active_of_step hstep ?_ ?_, fun cpu => ?_⟩
  · rintro q t r rfl
    exact hl
  · rintro rfl
    exact hl
  by_cases hcpu : l.cpu = some cpu
  · obtain ⟨hexecuting, hreturned, hexecuting'⟩ := control_of_uncached hgood hstep hl hcpu
    obtain ⟨hstage, hpreloaded⟩ := (h.place cpu).outside_of_searching hexecuting hreturned
    have hidle := (hstage ▸ h.place cpu).idle_of_outside
    rw [hstage]
    exact .outside hexecuting' hidle hpreloaded
  · rw [hgood.control_of_ne hstep hcpu]
    exact h.place cpu

/-- A step keeps the invariant. -/
theorem Inv.step (h : Inv strategy program m) {l : Label n O E R T Q}
    (hstep : Step strategy program layout m l m') : Inv strategy program m' := by
  obtain ⟨lists, hgood⟩ := h.good
  cases hstep with
  | dispatcher hstep hl => exact h.uncached hstep hl
  | @locked cpu q t r d hstep =>
    obtain ⟨hstage, hpreloaded, hactive, hcontrol, -⟩ := h.locked hstep
    have hidle := (hstage ▸ h.place cpu).idle_of_outside
    refine h.dispatched hstep rfl (fun _ _ => rfl) (fun _ hne => State.setActive_of_ne hne) ?_ ?_
    · simpa using hactive.symm
    · rw [hstage, hcontrol]
      exact .outside (by simp) (by simpa using hidle) (by simpa using hpreloaded)
  | @activateNone cpu task hcontrol hnone =>
    have htask := hgood.agrees hcontrol
    obtain rfl : task = none := hnone.resolve_right fun hne => hne htask.symm
    have hplace := h.place cpu
    rw [hcontrol] at hplace
    obtain ⟨hstage, hpreloaded⟩ := hplace.outside_of_searching (by simp) (by simp)
    have hidle := (hstage ▸ h.place cpu).idle_of_outside
    have hstep : Dispatcher.Step strategy program m.dispatcher _ _ := .activate hcontrol
    refine h.dispatched hstep rfl (fun _ _ => rfl) (fun _ _ => rfl)
      (h.active_of_step hstep (by simp) (by simp)) ?_
    rw [hstage]
    refine .outside ?_ hidle hpreloaded
    simp [Dispatcher.State.activate, show m.dispatcher.pActiveEventTask cpu = none from htask,
      Dispatcher.State.goto]
  | @activateOSC cpu t r osc hcontrol hactive hstage htrigger hosc =>
    have hplace := h.place cpu
    rw [hcontrol, hstage] at hplace
    refine h.setStage ?_
    rw [hcontrol, h.components_eq hactive htrigger hosc]
    exact hplace.preloads
  | @preloadSingleOSC cpu osc rest hstage hidle =>
    exact h.set rfl (hstage ▸ h.place cpu).preloadSingleOSC
  | @activate cpu t hstage hidle hcontrol =>
    have hplace := h.place cpu
    rw [hcontrol, hstage] at hplace
    have htask : m.dispatcher.pActiveEventTask cpu = some t := hgood.agrees hcontrol
    have hstep : Dispatcher.Step strategy program m.dispatcher _ _ := .activate hcontrol
    refine h.dispatched hstep rfl (fun _ hne => State.setStage_of_ne hne) (fun _ _ => rfl)
      (h.active_of_step hstep (by simp) (by simp)) ?_
    have hexecuting : (m.dispatcher.activate cpu (some t)).control cpu = .executing := by
      simp [Dispatcher.State.activate, htask, Dispatcher.State.goto]
    rw [hexecuting, State.setStage_self]
    exact hplace.activates hidle
  | @eventTaskFinished cpu t r osc hcontrol hactive hstage htrigger hosc =>
    have hplace := h.place cpu
    rw [hcontrol, hstage] at hplace
    refine h.setStage ?_
    rw [hcontrol, h.components_eq hactive htrigger hosc]
    exact hplace.evicts
  | @lookupAndEvictOSC cpu osc rest hstage hidle =>
    exact h.set rfl ((hstage ▸ h.place cpu).lookupAndEvictOSC hidle)
  | @unlockTask cpu t hstage hidle hactive =>
    have hplace := hstage ▸ h.place cpu
    obtain ⟨hcontrol, -⟩ := hplace.of_evictOSC
    have hnone := hplace.preloaded_of_evicted hidle
    refine h.dispatched (.eventTaskFinished hcontrol hactive) rfl
      (fun _ hne => State.setStage_of_ne hne) (fun _ hne => State.setActive_of_ne hne) ?_ ?_
    · simp [activeOSCs, Dispatcher.State.goto, Dispatcher.State.eventTaskFinished, unlockTask]
    · simp only [Dispatcher.State.goto_control_self, State.setStage_self]
      exact .outside (by simp) (by simpa [State.Idle] using hidle) (by simpa using hnone)
  | @cache l s hstep hl =>
    obtain ⟨hactive, -⟩ := inside_cases hstep hl
    refine h.move l.caller h.good (fun other hne => ?_) (hactive.trans (h.active _)) ?_
    · exact ⟨rfl, rfl, hstep.cpus_of_ne hne, rfl⟩
    · exact (h.place l.caller).inside hstep hl

omit [DecidableEq O] [DecidableEq Q] in
theorem Inv.initial {cache : GenericCacheManagement O} :
    Inv strategy program (State.initial cache : State n O E R T Q) :=
  ⟨⟨_, .initial⟩, fun _ => rfl, fun _ => .outside (by simp [State.initial, Dispatcher.State.initial])
    rfl rfl⟩

theorem Inv.run {ls : List (Label n O E R T Q)} (h : Inv strategy program m)
    (hrun : Run (Step strategy program layout) m ls m') : Inv strategy program m' :=
  hrun.invariant h fun h hstep => h.step hstep

theorem Inv.run_projects (h : Inv strategy program m) {ls : List (Label n O E R T Q)}
    (hrun : Run (Step strategy program layout) m ls m') :
    Run (Dispatcher.Step strategy program) m.dispatcher (ls.flatMap Label.toDispatcher)
        m'.dispatcher ∧
      Run (SharedStep layout) m.shared (ls.flatMap (Label.toShared program)) m'.shared := by
  induction hrun with
  | nil => exact ⟨.nil, .nil⟩
  | @snoc ls m₁ l m₂ hrun hstep ih =>
    obtain ⟨hdispatcher, hshared⟩ := ih
    obtain ⟨hdispatcher', hshared'⟩ := (h.run hrun).projects hstep
    simp only [List.flatMap_append, List.flatMap_singleton]
    exact ⟨hdispatcher.append hdispatcher', hshared.append hshared'⟩

/-- A run is one of the dispatcher and one of the cache management, in which no component is active
on two CPUs and a CPU has nothing preloaded any more when it unlocks its task. -/
theorem activateOSC_projects {cache : GenericCacheManagement O} {ls : List (Label n O E R T Q)}
    (hrun : Run (Step strategy program layout) (.initial cache) ls m) :
    Run (Dispatcher.Step strategy program) .initial (ls.flatMap Label.toDispatcher) m.dispatcher ∧
      Run (SharedStep layout) (.initial cache) (ls.flatMap (Label.toShared program)) m.shared :=
  Inv.initial.run_projects hrun

/-- Steps of the dispatcher that have nothing to do with the cache. -/
theorem run_of_uncached {ls : List (Dispatcher.Label n E R T Q)}
    (hrun : Run (Dispatcher.Step strategy program) m.dispatcher ls d) (hls : ∀ l ∈ ls, Uncached l) :
    Run (Step strategy program layout) m (ls.map .dispatcher) { m with dispatcher := d } := by
  induction hrun with
  | nil => exact .nil
  | snoc _ hstep ih =>
    simp only [List.forall_mem_append, List.forall_mem_singleton] at hls
    simpa using (ih hls.1).snoc (.dispatcher hstep hls.2)

end

open GenericCacheManagement (new onePage)

/-- A task is enqueued, and CPU 0 gets it. -/
theorem oneTrigger_returned : ∃ (ls : List (Label 2 Unit Bool Unit (Fin 2) (Fin 3)))
    (m : State 2 Unit Bool Unit (Fin 2) (Fin 3)),
    Run (Step multiQueuePriorityStrategy oneTrigger onePage) (.initial (new 2)) ls m ∧
      m.shared = (SharedState.initial (new 2)).set (new 2) 0 ⟨[()], [], .idle⟩ ∧
      m.stage = (fun _ => .outside) ∧ m.dispatcher.control 0 = .returned (some 0) ∧
      m.dispatcher.pActiveEventTask 0 = some 0 ∧
      (m.dispatcher.eventTask 0).trigger = some () := by
  let search : List (Dispatcher.Label 2 Bool Unit (Fin 2) (Fin 3)) := [.enqueueEvent 0 true (),
    .releaseStack 0, .getEvent 0, .lockQueue 0, .unlockQueue 0, .lockQueue 0]
  have hafter : ((search.foldlM (Dispatcher.State.after multiQueuePriorityStrategy oneTrigger)
      Dispatcher.State.initial).bind fun d => (d.after multiQueuePriorityStrategy oneTrigger
        (.locked 0 2 0 ())).bind fun d => d.after multiQueuePriorityStrategy oneTrigger
          (.getFreeStack 0)).any fun d => d.control 0 = .returned (some 0) ∧
            d.pActiveEventTask 0 = some 0 ∧ (d.eventTask 0).trigger = some () := by decide +kernel
  obtain ⟨d₃, hd₃, hfacts⟩ := (Option.any_eq_true _ _).mp hafter
  obtain ⟨d₁, hd₁, hrest⟩ := Option.bind_eq_some_iff.mp hd₃
  obtain ⟨d₂, hd₂, hget⟩ := Option.bind_eq_some_iff.mp hrest
  obtain ⟨hcontrol, hactive, htrigger⟩ := of_decide_eq_true hfacts
  have hsearch : Run (Step multiQueuePriorityStrategy oneTrigger onePage)
      (State.initial (new 2) : State 2 Unit Bool Unit (Fin 2) (Fin 3)) _ _ :=
    run_of_uncached (Dispatcher.run_of_afterAll hd₁) (by simp [search, Uncached])
  have hlocked := hsearch.snoc (.locked (.of_after hd₂))
  have hrun := hlocked.snoc (.dispatcher (.of_after hget) trivial)
  exact ⟨_, _, hrun, rfl, rfl, hcontrol, hactive, htrigger⟩

/-- CPU 0 preloads the component of its task, and runs the handler. -/
theorem oneTrigger_executing : ∃ (ls : List (Label 2 Unit Bool Unit (Fin 2) (Fin 3)))
    (m : State 2 Unit Bool Unit (Fin 2) (Fin 3)),
    Run (Step multiQueuePriorityStrategy oneTrigger onePage) (.initial (new 2)) ls m ∧
      .preloadSingleOSC 0 () ∈ ls ∧ m.dispatcher.control 0 = .executing ∧ m.stage 0 = .outside ∧
      m.dispatcher.pActiveEventTask 0 = some 0 ∧ (m.dispatcher.eventTask 0).trigger = some () ∧
      m.Idle 0 := by
  obtain ⟨ls, ⟨d, s, stage⟩, hrun, hs, rfl, hcontrol, hactive, htrigger⟩ := oneTrigger_returned
  obtain rfl : s = _ := hs
  have hrun := hrun.snoc (.activateOSC hcontrol hactive rfl htrigger rfl)
  have hrun := hrun.snoc (l := .preloadSingleOSC 0 ()) (.preloadSingleOSC rfl (by exact rfl))
  have hrun := hrun.snoc (l := .cache (.getLRUWay 0 () 0x1000 0))
    (.cache (.getLRUWay rfl (by decide) rfl) trivial)
  have hrun := hrun.snoc (l := .cache (.prefetchDataToWay 0 0))
    (.cache (.prefetchDataToWay rfl rfl rfl) trivial)
  have hrun := hrun.snoc (l := .cache (.setDataStart 0 () 0x1000 0))
    (.cache (.setDataStart rfl) trivial)
  have hrun := hrun.snoc (l := .cache (.setDataEnd 0 () 0x1000 0))
    (.cache (.setDataEnd rfl) trivial)
  have hrun := hrun.snoc (l := .cache (.setOsc 0 () 0x1000 0)) (.cache (.setOsc rfl) trivial)
  have hrun := hrun.snoc (l := .cache (.preloaded 0)) (.cache (.preloaded rfl (by decide)) trivial)
  have hrun := hrun.snoc (l := .dispatcher (.activate 0)) (.activate rfl (by exact rfl)
    (by exact hcontrol))
  let pStackPointers := Function.update d.pStackPointers 0 (d.eventTask 0).pStackpointer
  have hactivate : d.activate 0 (some 0) = { d with pStackPointers }.goto 0 .executing :=
    if_neg (not_not.mpr hactive.symm)
  refine ⟨_, _, hrun, by simp, ?_, rfl, ?_, ?_, rfl⟩
  · change (d.activate 0 (some 0)).control 0 = .executing
    rw [hactivate, Dispatcher.State.goto_control_self]
  · change (d.activate 0 (some 0)).pActiveEventTask 0 = some 0
    rwa [hactivate]
  · change ((d.activate 0 (some 0)).eventTask 0).trigger = some ()
    rwa [hactivate]

/-- The run of CPU 0 up to the eviction of the component. -/
theorem activateOSC_projects_oneTrigger : ∃ (ls : List (Label 2 Unit Bool Unit (Fin 2) (Fin 3)))
    (m : State 2 Unit Bool Unit (Fin 2) (Fin 3)),
    .preloadSingleOSC 0 () ∈ ls ∧ .lookupAndEvictOSC 0 () ∈ ls ∧
      m.dispatcher.control 0 = .executing ∧
      Run (Dispatcher.Step multiQueuePriorityStrategy oneTrigger) .initial
        (ls.flatMap Label.toDispatcher) m.dispatcher ∧
      Run (SharedStep onePage) (.initial (new 2)) (ls.flatMap (Label.toShared oneTrigger))
        m.shared := by
  obtain ⟨ls, m, hrun, hpreload, hcontrol, hstage, hactive, htrigger, hidle⟩ := oneTrigger_executing
  have hrun := hrun.snoc (.eventTaskFinished hcontrol hactive hstage htrigger rfl)
  have hevict : (m.setStage 0 (.evictOSC (components () (oneTrigger.trigger ())))).stage 0 =
      .evictOSC [()] := Function.update_self 0 _ m.stage
  have hrun := hrun.snoc (l := .lookupAndEvictOSC 0 ()) (.lookupAndEvictOSC hevict (by exact hidle))
  refine ⟨_, _, ?_, ?_, ?_, activateOSC_projects hrun⟩
  · simp [hpreload]
  · simp
  · exact hcontrol

end ActivateOSC
end CyPhOS
