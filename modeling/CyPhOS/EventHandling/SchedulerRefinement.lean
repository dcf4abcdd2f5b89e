import CyPhOS.EventHandling.Affinity
import CyPhOS.Lib.ResourceScheduler

/-! # What the dispatcher does

Whatever the strategy, the queues, the scans and the stacks of the dispatcher come to the same: event
tasks are submitted for a trigger, CPUs start them, and no two CPUs run tasks that share an OSC.
`status` reads off a state of the dispatcher where each task is, and `dispatcher_refines` says that
the dispatcher makes the steps of a scheduler of jobs that need resources. So every task that was
enqueued is dispatched once or waits in the queue of its trigger (`enqueued_once`).
-/

namespace CyPhOS

open Transition

namespace Dispatcher

open ResourceScheduler (Status)

variable {n : Nat} {O E R T Q : Type}

/-- The CPU that a task is active on. -/
def activeOn [DecidableEq T] (m : State n E R T Q) (t : T) : Option (Fin n) :=
  (List.finRange n).find? fun cpu => m.pActiveEventTask cpu = some t

/-- Where a task is: without a trigger it is in its pool. -/
def status [DecidableEq T] (m : State n E R T Q) (t : T) : Status (Fin n) R :=
  match (m.eventTask t).trigger, activeOn m t with
  | none, _ => .free
  | some r, none => .waiting r
  | some r, some cpu => .running cpu r

/-- A job is submitted when its task is enqueued, and a CPU starts it when it has locked the task. -/
def Label.toScheduler : Label n E R T Q → List (ResourceScheduler.Label (Fin n) T R)
  | enqueueEvent t _ r => [.submit t r]
  | locked cpu _ t _ => [.start cpu t]
  | eventTaskFinished cpu => [.finish cpu]
  | _ => []

/-- The label puts the task into a queue. -/
def Label.isEnqueueOf [DecidableEq T] (t : T) : Label n E R T Q → Bool
  | enqueueEvent t' _ _ => t' = t
  | _ => false

/-- The label dispatches the task. -/
def Label.isLockOf [DecidableEq T] (t : T) : Label n E R T Q → Bool
  | locked _ _ t' _ => t' = t
  | _ => false

/-- The label dispatches a task on the CPU. -/
def Label.isLockOn (cpu : Fin n) : Label n E R T Q → Bool
  | locked cpu' _ _ _ => cpu' = cpu
  | _ => false

def Label.isFinishOn (cpu : Fin n) : Label n E R T Q → Bool
  | eventTaskFinished cpu' => cpu' = cpu
  | _ => false

/-- The OSCs of a trigger. -/
def resources (program : Program O E R) (r : R) : Set O :=
  {osc | osc ∈ (program.trigger r).oscSet}

section
variable [DecidableEq T] {m m' : State n E R T Q} {t : T} {cpu : Fin n} {r : R}

theorem activeOn_eq_none_iff : activeOn m t = none ↔ ∀ cpu, m.pActiveEventTask cpu ≠ some t := by
  simp [activeOn, List.find?_eq_none]

theorem active_of_activeOn (h : activeOn m t = some cpu) : m.pActiveEventTask cpu = some t := by
  simpa using List.find?_some h

theorem status_congr (htrigger : (m'.eventTask t).trigger = (m.eventTask t).trigger)
    (hactive : ∀ cpu, m'.pActiveEventTask cpu = some t ↔ m.pActiveEventTask cpu = some t) :
    status m' t = status m t := by
  have hsame : activeOn m' t = activeOn m t := by
    unfold activeOn
    exact congrArg (List.find? · _) (funext fun cpu => decide_eq_decide.mpr (hactive cpu))
  rw [status, status, htrigger, hsame]

theorem status_free (h : (m.eventTask t).trigger = none) : status m t = .free := by
  simp [status, h]

theorem status_waiting (htrigger : (m.eventTask t).trigger = some r)
    (h : ∀ cpu, m.pActiveEventTask cpu ≠ some t) : status m t = .waiting r := by
  simp [status, htrigger, activeOn_eq_none_iff.mpr h]

theorem of_status_running (h : status m t = .running cpu r) :
    (m.eventTask t).trigger = some r ∧ m.pActiveEventTask cpu = some t := by
  unfold status at h
  split at h <;> cases h
  next hactive htrigger => exact ⟨htrigger, active_of_activeOn hactive⟩

theorem of_status_waiting (h : status m t = .waiting r) :
    (m.eventTask t).trigger = some r ∧ ∀ cpu, m.pActiveEventTask cpu ≠ some t := by
  unfold status at h
  split at h <;> cases h
  next hactive htrigger => exact ⟨htrigger, activeOn_eq_none_iff.mp hactive⟩

section
variable [Fintype T] {strategy : Strategy n O T Q} {program : Program O E R} {lists : Q → List T}

theorem Good.status_running (h : Good strategy program m lists)
    (htrigger : (m.eventTask t).trigger = some r) (hactive : m.pActiveEventTask cpu = some t) :
    status m t = .running cpu r := by
  cases hon : activeOn m t with
  | none => exact absurd hactive (activeOn_eq_none_iff.mp hon cpu)
  | some cpu' =>
    obtain rfl := h.cycled.once cpu' cpu t (active_of_activeOn hon) hactive
    simp [status, htrigger, hon]

omit [Fintype T] in
/-- Steps that leave the triggers and the table of active tasks. -/
theorem status_eq (htrigger : ∀ u, (m'.eventTask u).trigger = (m.eventTask u).trigger)
    (hactive : m'.pActiveEventTask = m.pActiveEventTask) : status m' = status m :=
  funext fun u => status_congr (htrigger u) fun cpu => by rw [hactive]

variable [DecidableEq O] [DecidableEq Q] {l : Label n E R T Q} {ls : List (Label n E R T Q)}

theorem Good.status_locked (h : Good strategy program m lists) {q : Q} {rest : List Q}
    {active : Fin n → Option T} (hcontrol : m.control cpu = .scanning q (some t) rest)
    (hcall : tryTaskLock (m.trigger program) m.pActiveEventTask cpu t = .ok (true, active))
    (htrigger : (m.eventTask t).trigger = some r) :
    ResourceScheduler.Step (resources program) (status m) (.start cpu t)
      (status ({ m.dequeue q t with pActiveEventTask := active }.goto cpu (.dequeued t))) := by
  obtain ⟨xs, ys, hsplit, hgood⟩ := h.locked hcontrol hcall
  have hnone : m.pActiveEventTask cpu = none := h.agrees hcontrol
  obtain ⟨⟨tr, osc, htr, hosc⟩, -⟩ := tryTaskLock_cases hcall
  obtain ⟨_, _, hcall', hfree, hactive, -⟩ := tryTaskLock_spec htr hosc h.triggered_active hnone
  cases hcall.symm.trans hcall'
  obtain rfl := hactive rfl
  have hinactive : ∀ cpu', m.pActiveEventTask cpu' ≠ some t := fun cpu' ht =>
    (h.cycled.active cpu' t ht).2 q (by simp [hsplit])
  have hstatus : status ({ m.dequeue q t with
      pActiveEventTask := Function.update m.pActiveEventTask cpu (some t) }.goto cpu
        (.dequeued t)) = Function.update (status m) t (.running cpu r) := by
    funext u
    rcases eq_or_ne u t with rfl | hne
    · rw [Function.update_self]
      exact hgood.status_running htrigger (Function.update_self ..)
    · rw [Function.update_of_ne hne]
      refine status_congr rfl fun cpu' => ?_
      rcases eq_or_ne cpu' cpu with rfl | hcpu
      · simp [State.goto, hnone, hne.symm]
      · simp [State.goto, State.dequeue, hcpu]
  rw [hstatus]
  refine .start (status_waiting htrigger hinactive) (fun u r' hu => ?_) fun u => ?_
  · have hu := (of_status_running hu).2
    rw [hnone] at hu
    cases hu
  · have hoscs : taskOSCs (m.trigger program) t = (program.trigger r).oscSet :=
      taskOSCs_eq (by simp [State.trigger, htrigger])
    cases hu : status m u with
    | free | waiting => exact disjoint_bot_right
    | running cpu' r' =>
      obtain ⟨htrigger', hactive'⟩ := of_status_running hu
      have hne : cpu' ≠ cpu := by
        rintro rfl
        rw [hnone] at hactive'
        cases hactive'
      have hoscs' : taskOSCs (m.trigger program) u = (program.trigger r').oscSet :=
        taskOSCs_eq (by simp [State.trigger, htrigger'])
      have hdisjoint := hfree.mp rfl cpu' u hne hactive'
      rw [hoscs, hoscs'] at hdisjoint
      exact Set.disjoint_left.mpr fun osc hosc hosc' => hdisjoint hosc hosc'

/-- A step of the dispatcher is one of the scheduler, or none. -/
theorem Good.refines (h : Good strategy program m lists) (hstep : Step strategy program m l m') :
    Run (ResourceScheduler.Step (resources program)) (status m) l.toScheduler (status m') := by
  cases hstep with
  | @enqueueEvent _ t e r hpool hfree hcall =>
    obtain ⟨-, -, -, -, htrigger, hsame, -, -, hactive⟩ := h.enqueueEvent hpool hfree hcall
    have hinactive : ∀ cpu, m.pActiveEventTask cpu ≠ some t := fun cpu ht =>
      (h.cycled.active cpu t ht).1 hpool
    have hstatus : status m' = Function.update (status m) t (.waiting r) := by
      funext u
      rcases eq_or_ne u t with rfl | hne
      · rw [Function.update_self]
        exact status_waiting htrigger (hactive ▸ hinactive)
      · rw [Function.update_of_ne hne]
        exact status_congr (by rw [hsame u hne]) fun cpu => by rw [hactive]
    rw [hstatus]
    exact .single (.submit (status_free hpool))
  | @releaseStack cpu hcontrol =>
    have hsame : status ((m.releaseStack cpu).goto cpu .waiting) = status m :=
      status_eq (fun u => by unfold State.releaseStack; split <;> rfl)
        (by unfold State.releaseStack; split <;> rfl)
    rw [hsame]
    exact .nil
  | locked hcontrol hcall htrigger => exact .single (h.status_locked hcontrol hcall htrigger)
  | @getFreeStack cpu t sp stackPool hcontrol hcall =>
    have hsame : status ({ m.setTask t fun x =>
        { x with pStackpointer := some sp, pEnqueued := false } with
          stackPool }.goto cpu (.returned (some t))) = status m := by
      refine status_eq (fun u => ?_) rfl
      rcases eq_or_ne u t with rfl | hne
      · simp [State.goto, State.setTask]
      · simp [State.goto, State.setTask, hne]
    rw [hsame]
    exact .nil
  | requeue hcontrol => exact (h.agrees hcontrol).elim
  | @activate cpu task hcontrol =>
    obtain ⟨c, pStackPointers, heq, -⟩ := m.activate_eq cpu task
    rw [heq]
    exact .nil
  | @eventTaskFinished cpu t hcontrol hactive =>
    obtain ⟨r, htrigger⟩ := Option.ne_none_iff_exists'.mp (h.cycled.active cpu t hactive).1
    have hstatus : status ((m.eventTaskFinished cpu t).goto cpu .dispatching) =
        Function.update (status m) t .free := by
      funext u
      rcases eq_or_ne u t with rfl | hne
      · rw [Function.update_self]
        exact status_free (by simp [State.goto, State.eventTaskFinished, State.setTask])
      · rw [Function.update_of_ne hne]
        refine status_congr (by simp [State.goto, State.eventTaskFinished, State.setTask, hne])
          fun cpu' => ?_
        rcases eq_or_ne cpu' cpu with rfl | hcpu
        · simp [State.goto, State.eventTaskFinished, unlockTask, hactive, hne.symm]
        · simp [State.goto, State.eventTaskFinished, State.setTask, unlockTask, hcpu]
    rw [hstatus]
    exact .single (.finish (h.status_running htrigger hactive))
  | _ => exact .nil

/-- Every run of the dispatcher is one of a scheduler, in which a CPU starts a waiting task only if it
runs none and no running task shares an OSC with it. So running tasks have disjoint OSC sets. -/
theorem dispatcher_refines (hrun : Run (Step strategy program) State.initial ls m) :
    Run (ResourceScheduler.Step (resources program)) (fun _ => .free)
        (ls.flatMap Label.toScheduler) (status m) ∧
      ResourceScheduler.Exclusive (resources program) (status m) := by
  have hscheduler : Run (ResourceScheduler.Step (resources program)) (fun _ => .free)
      (ls.flatMap Label.toScheduler) (status m) := by
    induction hrun with
    | nil => exact .nil
    | @snoc ls m₁ l m₂ hrun hstep ih =>
      obtain ⟨lists, hgood⟩ := Good.run hrun
      rw [List.flatMap_append, List.flatMap_singleton]
      exact ih.append (hgood.refines hstep)
  exact ⟨hscheduler, .of_run .initial hscheduler⟩

/-! ## Every task once -/

omit [DecidableEq T] [Fintype T] [DecidableEq O] [DecidableEq Q] in
theorem countP_toScheduler {p : ResourceScheduler.Label (Fin n) T R → Bool}
    {p' : Label n E R T Q → Bool} (h : ∀ l, l.toScheduler.countP p = if p' l then 1 else 0)
    (ls : List (Label n E R T Q)) : (ls.flatMap Label.toScheduler).countP p = ls.countP p' := by
  induction ls with
  | nil => rfl
  | cons l ls ih => rw [List.flatMap_cons, List.countP_append, ih, h, List.countP_cons, add_comm]

/-- A task with a trigger is in a queue, or a CPU has it. -/
def Pending (m : State n E R T Q) (lists : Q → List T) : Prop :=
  ∀ t, (m.eventTask t).trigger ≠ none → (∃ q, t ∈ lists q) ∨ ∃ cpu, m.pActiveEventTask cpu = some t

theorem Pending.step {lists' : Q → List T} (h : Pending m lists)
    (hgood : Good strategy program m lists) (hstep : Step strategy program m l m')
    (hmoved : Moved strategy program m lists lists' l) : Pending m' lists' := by
  intro u hu
  cases hstep with
  | @enqueueEvent _ t e r hpool hfree hcall =>
    obtain ⟨-, -, -, -, -, hsame, -, -, hactive⟩ := hgood.enqueueEvent hpool hfree hcall
    obtain ⟨xs, ys, hsplit, -, rfl⟩ := hmoved
    rcases eq_or_ne u t with rfl | hne
    · exact .inl ⟨_, by rw [Function.update_self]; simp⟩
    rw [hsame u hne] at hu
    rw [hactive]
    refine (h u hu).imp_left ?_
    rintro ⟨q, hq⟩
    refine ⟨q, ?_⟩
    rw [Function.update_apply]
    split
    · next heq =>
      subst heq
      rw [hsplit] at hq
      exact List.perm_middle.mem_iff.mpr (.tail t hq)
    · exact hq
  | @releaseStack cpu hcontrol =>
    cases hmoved
    have hsame : ((m.releaseStack cpu).goto cpu .waiting).eventTask = m.eventTask ∧
        ((m.releaseStack cpu).goto cpu .waiting).pActiveEventTask = m.pActiveEventTask := by
      unfold State.releaseStack
      split <;> exact ⟨rfl, rfl⟩
    rw [hsame.1] at hu
    rw [hsame.2]
    exact h u hu
  | @locked cpu q t rest active r hcontrol hcall htrigger =>
    obtain ⟨xs, ys, hsplit, rfl, -⟩ := hmoved
    obtain rfl : active = Function.update m.pActiveEventTask cpu (some t) := by
      simpa using (tryTaskLock_cases hcall).2
    rcases eq_or_ne u t with rfl | hne
    · exact .inr ⟨cpu, Function.update_self ..⟩
    have hnone : m.pActiveEventTask cpu = none := hgood.agrees hcontrol
    refine (h u hu).imp ?_ ?_
    · rintro ⟨q', hq'⟩
      refine ⟨q', ?_⟩
      rw [Function.update_apply]
      split
      · next heq =>
        subst heq
        rw [hsplit] at hq'
        exact (List.mem_cons.mp (List.perm_middle.mem_iff.mp hq')).resolve_left hne
      · exact hq'
    · rintro ⟨cpu', hcpu'⟩
      refine ⟨cpu', (Function.update_of_ne ?_ ..).trans hcpu'⟩
      rintro rfl
      rw [hnone] at hcpu'
      cases hcpu'
  | @getFreeStack cpu t sp stackPool hcontrol hcall =>
    cases hmoved
    refine h u ?_
    rcases eq_or_ne u t with rfl | hne
    · simpa [State.goto, State.setTask] using hu
    · simpa [State.goto, State.setTask, hne] using hu
  | requeue hcontrol => exact (hgood.agrees hcontrol).elim
  | @activate cpu task hcontrol =>
    cases hmoved
    obtain ⟨c, pStackPointers, heq, -⟩ := m.activate_eq cpu task
    rw [heq] at hu ⊢
    exact h u hu
  | @eventTaskFinished cpu t hcontrol hactive =>
    cases hmoved
    have hne : u ≠ t := by
      rintro rfl
      simp [State.goto, State.eventTaskFinished, State.setTask] at hu
    have hold : (m.eventTask u).trigger ≠ none := by
      simpa [State.goto, State.eventTaskFinished, State.setTask, hne] using hu
    refine (h u hold).imp_right ?_
    rintro ⟨cpu', hcpu'⟩
    refine ⟨cpu', ?_⟩
    have hother : cpu' ≠ cpu := by
      rintro rfl
      rw [hactive] at hcpu'
      exact hne (Option.some.inj hcpu').symm
    simpa [State.goto, State.eventTaskFinished, unlockTask, State.setTask, hother] using hcpu'
  | _ =>
    cases hmoved
    exact h u hu

theorem Pending.run (hrun : Run (Step strategy program) State.initial ls m) :
    ∃ lists, Good strategy program m lists ∧ Pending m lists := by
  induction hrun with
  | nil => exact ⟨_, .initial, fun _ ht => absurd rfl ht⟩
  | snoc _ hstep ih =>
    obtain ⟨lists, hgood, hpending⟩ := ih
    obtain ⟨lists', hgood', hmoved⟩ := hgood.step hstep
    exact ⟨lists', hgood', hpending.step hgood hstep hmoved⟩

theorem of_status_busy (hrun : Run (Step strategy program) State.initial ls m) :
    ResourceScheduler.Busy (status m) cpu ↔ m.pActiveEventTask cpu ≠ none := by
  obtain ⟨lists, hgood⟩ := Good.run hrun
  constructor
  · rintro ⟨t, r, ht⟩
    rw [(of_status_running ht).2]
    simp
  · intro hactive
    obtain ⟨t, ht⟩ := Option.ne_none_iff_exists'.mp hactive
    obtain ⟨r, hr⟩ := Option.ne_none_iff_exists'.mp (hgood.cycled.active cpu t ht).1
    exact ⟨t, r, hgood.status_running hr ht⟩

/-- Every time a task is enqueued it is dispatched once, or it waits, and then it is in the queue of
its trigger. A CPU has finished every task it was given but the active one. -/
theorem enqueued_once (hrun : Run (Step strategy program) State.initial ls m) :
    (∀ t, ls.countP (Label.isEnqueueOf t) = ls.countP (Label.isLockOf t) + (status m t).waits) ∧
      (∀ t r, status m t = .waiting r → ∃ e, (m.eventTask t).event = some e ∧
        Queued m (strategy.queueOf (program.trigger r) (program.pType e)) t) ∧
      ∀ cpu, ls.countP (Label.isLockOn cpu) = ls.countP (Label.isFinishOn cpu) +
        if m.pActiveEventTask cpu = none then 0 else 1 := by
  obtain ⟨hscheduler, -⟩ := dispatcher_refines hrun
  refine ⟨fun t => ?_, fun t r hwaiting => ?_, fun cpu => ?_⟩
  · have henqueue : ∀ l : Label n E R T Q,
        l.toScheduler.countP (ResourceScheduler.Label.submits t) =
          if l.isEnqueueOf t then 1 else 0 := by
      intro l
      cases l <;> simp [Label.toScheduler, ResourceScheduler.Label.submits, Label.isEnqueueOf]
    have hlock : ∀ l : Label n E R T Q,
        l.toScheduler.countP (ResourceScheduler.Label.starts t) =
          if l.isLockOf t then 1 else 0 := by
      intro l
      cases l <;> simp [Label.toScheduler, ResourceScheduler.Label.starts, Label.isLockOf]
    have hcount := ResourceScheduler.submits_of_run hscheduler t
    rwa [countP_toScheduler henqueue, countP_toScheduler hlock] at hcount
  · obtain ⟨lists, hgood, hpending⟩ := Pending.run hrun
    obtain ⟨htrigger, hinactive⟩ := of_status_waiting hwaiting
    rcases hpending t (by simp [htrigger]) with ⟨q, hq⟩ | ⟨cpu, hcpu⟩
    · obtain ⟨r', e, hr', he, rfl⟩ := hgood.lined.queued q t hq
      rw [htrigger] at hr'
      cases hr'
      exact ⟨e, he, hgood.queued_iff.mpr hq⟩
    · exact absurd hcpu (hinactive cpu)
  · have hlock : ∀ l : Label n E R T Q,
        l.toScheduler.countP (ResourceScheduler.Label.startsOn cpu) =
          if l.isLockOn cpu then 1 else 0 := by
      intro l
      cases l <;> simp [Label.toScheduler, ResourceScheduler.Label.startsOn, Label.isLockOn]
    have hfinish : ∀ l : Label n E R T Q,
        l.toScheduler.countP (ResourceScheduler.Label.finishesOn cpu) =
          if l.isFinishOn cpu then 1 else 0 := by
      intro l
      cases l <;> simp [Label.toScheduler, ResourceScheduler.Label.finishesOn, Label.isFinishOn]
    have hcount := ResourceScheduler.starts_of_run hscheduler cpu
    rw [of_status_busy hrun, countP_toScheduler hlock, countP_toScheduler hfinish] at hcount
    split
    · next hnone => exact hcount.2 (by simp [hnone])
    · next hactive => exact hcount.1 hactive

end

end

/-- A task is enqueued, and CPU 0 locks it. -/
theorem oneTrigger_locked : ∃ m : State 2 Bool Unit (Fin 2) (Fin 3),
    Run (Step multiQueuePriorityStrategy oneTrigger) State.initial
      [.enqueueEvent 0 true (), .releaseStack 0, .getEvent 0, .lockQueue 0, .unlockQueue 0,
        .lockQueue 0, .locked 0 2 0 ()] m ∧
      m.pActiveEventTask 0 = some 0 ∧ (m.eventTask 0).trigger = some () := by
  have hafter : (([.enqueueEvent 0 true (), .releaseStack 0, .getEvent 0, .lockQueue 0,
      .unlockQueue 0, .lockQueue 0, .locked 0 2 0 ()] : List (Label 2 Bool Unit (Fin 2)
        (Fin 3))).foldlM (State.after multiQueuePriorityStrategy oneTrigger) State.initial).any
          fun m => m.pActiveEventTask 0 = some 0 ∧ (m.eventTask 0).trigger = some () := by
    decide +kernel
  obtain ⟨m, hm, hfacts⟩ := (Option.any_eq_true _ _).mp hafter
  exact ⟨m, run_of_afterAll hm, of_decide_eq_true hfacts⟩

theorem dispatcher_refines_oneTrigger : ∃ m : State 2 Bool Unit (Fin 2) (Fin 3),
    m.pActiveEventTask 0 = some 0 ∧
      Run (ResourceScheduler.Step (resources oneTrigger)) (fun _ => .free)
        [.submit 0 (), .start 0 0] (status m) ∧
      ResourceScheduler.Exclusive (resources oneTrigger) (status m) := by
  obtain ⟨m, hrun, hactive, -⟩ := oneTrigger_locked
  exact ⟨m, hactive, dispatcher_refines hrun⟩

/-- The task of CPU 0 was enqueued once and dispatched once, and is not finished. -/
theorem enqueued_once_oneTrigger : ∃ (m : State 2 Bool Unit (Fin 2) (Fin 3))
    (ls : List (Label 2 Bool Unit (Fin 2) (Fin 3))),
    Run (Step multiQueuePriorityStrategy oneTrigger) State.initial ls m ∧
      m.pActiveEventTask 0 = some 0 ∧
      ls.countP (Label.isEnqueueOf 0) = ls.countP (Label.isLockOf 0) + (status m 0).waits ∧
      ls.countP (Label.isLockOn 0) = ls.countP (Label.isFinishOn 0) + 1 := by
  obtain ⟨m, hrun, hactive, -⟩ := oneTrigger_locked
  obtain ⟨htask, -, hcpu⟩ := enqueued_once hrun
  refine ⟨m, _, hrun, hactive, htask 0, ?_⟩
  simpa [hactive] using hcpu 0

end Dispatcher
end CyPhOS
