import CyPhOS.EventHandling.Conservation
import CyPhOS.EventHandling.Strategy

/-! # When no stack is free

`FifoStrategy` has two queues for all CPUs, one of them for interrupts. Like
`MultiQueuePriorityStrategy` it asks for a stack after it has locked a task and taken it out of its
queue, and puts the task back with `enqueueEvent` if there is none. Nothing takes the lock back: the
table of active tasks keeps the task, whatever the state was (`getEvent_not_keepsScheduler`).
-/

namespace CyPhOS

variable {n : Nat} {O E R T σ : Type} [DecidableEq O]

/-! ## A granted lock is seen in the table -/

section
variable {trigger : T → Option (Trigger O)} {active active' : Fin n → Option T} {cpu : Fin n}
  {task : T} {tr : Trigger O}

theorem Trigger.inUse_self (tr : Trigger O) : tr.inUse tr = true := by
  simp [inUse]

/-- No CPU that was looked at runs a task in conflict. -/
theorem anyCPUUses_eq_false {cpus : List (Fin n)} {t : T}
    (h : anyCPUUses trigger active tr cpus = .ok false) (hcpu : cpu ∈ cpus)
    (ht : active cpu = some t) : ∃ other, trigger t = some other ∧ tr.inUse other = false := by
  induction cpus with
  | nil => cases hcpu
  | cons c cpus ih =>
    cases hc : active c with
    | none =>
      simp only [anyCPUUses, hc] at h
      refine ih h ((List.mem_cons.mp hcpu).resolve_left fun e => ?_)
      rw [e, hc] at ht
      cases ht
    | some u =>
      simp only [anyCPUUses, hc] at h
      obtain ⟨other, hother, h⟩ := Exec.bind_eq_ok.mp h
      cases huse : tr.inUse other with
      | true => simp [huse] at h
      | false =>
        simp only [huse, Bool.false_eq_true, if_false] at h
        rcases List.mem_cons.mp hcpu with rfl | hcpu
        · cases hc.symm.trans ht
          exact ⟨other, derefTrigger_eq_ok.mp hother, huse⟩
        · exact ih h hcpu

/-- A task that is active already conflicts with itself, so a granted lock is a change. -/
theorem tryTaskLock_granted (h : tryTaskLock trigger active cpu task = .ok (true, active')) :
    active cpu ≠ some task ∧ active' = Function.update active cpu (some task) := by
  refine ⟨fun hcpu => ?_, by simpa using (tryTaskLock_cases h).2⟩
  obtain ⟨tr, htr, h⟩ := Exec.bind_eq_ok.mp h
  split at h
  · cases h
  · obtain ⟨used, hused, h⟩ := Exec.bind_eq_ok.mp h
    cases used with
    | true => simp at h
    | false =>
      obtain ⟨other, hother, huse⟩ := anyCPUUses_eq_false hused (List.mem_finRange cpu) hcpu
      cases (derefTrigger_eq_ok.mp htr).symm.trans hother
      rw [Trigger.inUse_self] at huse
      cases huse

/-- The table before and after a scan that has locked `task`. -/
def Granted (cpu : Fin n) (active : Fin n → Option T) (task : T) (active' : Fin n → Option T) :
    Prop :=
  active cpu ≠ some task ∧ active' = Function.update active cpu (some task)

theorem Granted.ne (h : Granted cpu active task active') : active' ≠ active := fun e => by
  have hcpu : active' cpu = some task := by rw [h.2, Function.update_self]
  exact h.1 (e ▸ hcpu)

/-- A scan passes over refused locks, which leave the table alone. -/
theorem lockFrom_granted {next : T → Exec (Option T)} {fuel : Nat} {first res : Option T}
    (h : lockFrom next (fun active t => tryTaskLock trigger active cpu t) fuel first active =
      .ok (res, active')) :
    res = none ∧ active' = active ∨ ∃ t, res = some t ∧ Granted cpu active t active' := by
  induction fuel generalizing first with
  | zero =>
    cases first with
    | none =>
      cases h
      exact .inl ⟨rfl, rfl⟩
    | some t => cases h
  | succ fuel ih =>
    cases first with
    | none =>
      cases h
      exact .inl ⟨rfl, rfl⟩
    | some t =>
      obtain ⟨⟨locked, s⟩, hlock, hrest⟩ := Exec.bind_eq_ok.mp h
      cases locked with
      | true =>
        cases hrest
        exact .inr ⟨t, rfl, tryTaskLock_granted hlock⟩
      | false =>
        have hs : s = active := by simpa using (tryTaskLock_cases hlock).2
        subst hs
        obtain ⟨o, -, hrest⟩ := Exec.bind_eq_ok.mp hrest
        exact ih hrest

end

/-! ## `MultiQueuePriorityStrategy` -/

namespace Tasks

variable {program : Program O E R} {s s' : Tasks n E R} {cpu : Fin n} {res : Option Task}

theorem dequeueReady_granted {cpuNo : Fin (n + 1)}
    (h : s.dequeueReady program cpu cpuNo = .ok (res, s')) :
    res = none ∧ s'.pActiveEventTask = s.pActiveEventTask ∨
      ∃ t, res = some t ∧ Granted cpu s.pActiveEventTask t s'.pActiveEventTask := by
  obtain ⟨⟨t, links, queue, active⟩, hdequeue, h⟩ := Exec.bind_eq_ok.mp h
  cases h
  obtain ⟨⟨retEl, active'⟩, hlock, hdequeue⟩ := Exec.bind_eq_ok.mp hdequeue
  rw [EventPriorityQueue.lockFirst_eq_lockFrom] at hlock
  have hgranted := lockFrom_granted hlock
  cases retEl with
  | none =>
    cases hdequeue
    exact hgranted
  | some retEl =>
    cases hdequeue
    exact hgranted

theorem getLocalOrGlobalEvent_granted
    (h : s.getLocalOrGlobalEvent program cpu = .ok (res, s')) :
    res = none ∧ s'.pActiveEventTask = s.pActiveEventTask ∨
      ∃ t, res = some t ∧ Granted cpu s.pActiveEventTask t s'.pActiveEventTask := by
  obtain ⟨⟨local', s₁⟩, hlocal, h⟩ := Exec.bind_eq_ok.mp h
  rcases dequeueReady_granted hlocal with ⟨rfl, hsame⟩ | ⟨t, rfl, hgranted⟩
  · have hglobal := dequeueReady_granted h
    rwa [hsame] at hglobal
  · cases h
    exact .inr ⟨t, rfl, hgranted⟩

omit [DecidableEq O] in
theorem enqueueEvent_pActiveEventTask {eventtask : Task}
    (h : s.enqueueEvent program eventtask = .ok s') :
    s'.pActiveEventTask = s.pActiveEventTask := by
  obtain ⟨tr, -, h⟩ := Exec.bind_eq_ok.mp h
  obtain ⟨⟨links, queue⟩, -, h⟩ := Exec.bind_eq_ok.mp h
  cases h
  rfl

end Tasks

namespace System

variable (program : Program O E R) (s : System n E R) (cpu : Fin n)

/-- The call gets to `getFreeStack`, and that returns a null pointer. -/
def LacksStack : Prop :=
  ∃ eventtask tasks stackPool,
    s.tasks.getLocalOrGlobalEvent program cpu = .ok (some eventtask, tasks) ∧
    (tasks.eventTask eventtask).pStackpointer = none ∧
    s.stackPool.getFreeStack n = .ok (none, stackPool)

/-- The call returns a null pointer and leaves the table of active tasks and every ready queue, as a
list, as they were. -/
def KeepsScheduler : Prop :=
  ∃ s', s.getEvent program cpu = .ok (none, s') ∧
    s'.tasks.pActiveEventTask = s.tasks.pActiveEventTask ∧
    ∀ cpuNo l, (s.tasks.queues (.mFifoQueue cpuNo)).Rep s.tasks.links l →
      (s'.tasks.queues (.mFifoQueue cpuNo)).Rep s'.tasks.links l

variable {program s cpu}

theorem LacksStack.not_keepsScheduler (h : s.LacksStack program cpu) :
    ¬ s.KeepsScheduler program cpu := by
  obtain ⟨eventtask, tasks, stackPool, hget, hstack, hpool⟩ := h
  rintro ⟨s', hs', hactive, -⟩
  obtain ⟨⟨res, tasks'⟩, hget', hs'⟩ := Exec.bind_eq_ok.mp hs'
  cases hget.symm.trans hget'
  obtain ⟨⟨sp, pool⟩, hpool', hs'⟩ := Exec.bind_eq_ok.mp hs'
  rw [hstack, StackPool.provideStack] at hpool'
  cases hpool.symm.trans hpool'
  obtain ⟨tasks', henqueue, hs'⟩ := Exec.bind_eq_ok.mp hs'
  cases hs'
  have hkept := Tasks.enqueueEvent_pActiveEventTask henqueue
  rcases Tasks.getLocalOrGlobalEvent_granted hget with ⟨hnone, -⟩ | ⟨t, -, hgranted⟩
  · cases hnone
  · exact hgranted.ne (hkept.symm.trans hactive)

end System

/-! ## `FifoStrategy` -/

/-- The queues of `FifoStrategy`, with the tasks, the table of active tasks and the stacks. -/
structure FifoStrategy (n : Nat) (E R : Type) where
  links : QueueElements Task
  eventTask : Task → EventTask E R
  mFifoQueue : Queue Task
  mFifoInterruptQueue : Queue Task
  pActiveEventTask : Fin n → Option Task
  stackPool : StackPool

namespace FifoStrategy

/-- The trigger that a task points to. -/
def trigger (program : Program O E R) (s : FifoStrategy n E R) (task : Task) :
    Option (Trigger O) :=
  (s.eventTask task).trigger.map program.trigger

/-- Write the fields of a task. -/
def setTask (s : FifoStrategy n E R) (task : Task) (f : EventTask E R → EventTask E R) :
    FifoStrategy n E R :=
  { s with eventTask := Function.update s.eventTask task (f (s.eventTask task)) }

def enqueueEvent (program : Program O E R) (s : FifoStrategy n E R) (eventtask : Task) :
    Exec (FifoStrategy n E R) := do
  let s := s.setTask eventtask fun t => { t with pEnqueued := true }
  match (s.eventTask eventtask).event with
  | none => .error .nullDereference
  | some event =>
    if program.pType event = .interruptEvent then
      let (links, mFifoInterruptQueue) ← s.mFifoInterruptQueue.enqueue s.links eventtask
      pure { s with links, mFifoInterruptQueue }
    else
      let (links, mFifoQueue) ← s.mFifoQueue.enqueue s.links eventtask
      pure { s with links, mFifoQueue }

/-- The queue of the interrupts first. -/
def getReadyEvent (program : Program O E R) (s : FifoStrategy n E R) (cpu : Fin n) :
    Exec (Option Task × FifoStrategy n E R) := do
  let lock active t := tryTaskLock (s.trigger program) active cpu t
  let (event, links, mFifoInterruptQueue, pActiveEventTask) ←
    EventQueue.dequeueFirstLocked lock s.links s.mFifoInterruptQueue s.pActiveEventTask
  let s := { s with links, mFifoInterruptQueue, pActiveEventTask }
  match event with
  | some event => pure (some event, s)
  | none =>
    let (event, links, mFifoQueue, pActiveEventTask) ←
      EventQueue.dequeueFirstLocked lock s.links s.mFifoQueue s.pActiveEventTask
    pure (event, { s with links, mFifoQueue, pActiveEventTask })

def getEvent (program : Program O E R) (s : FifoStrategy n E R) (cpu : Fin n) :
    Exec (Option Task × FifoStrategy n E R) := do
  match ← s.getReadyEvent program cpu with
  | (none, s) => pure (none, s)
  | (some event, s) =>
    let (pStackpointer, stackPool) ←
      s.stackPool.provideStack n (s.eventTask event).pStackpointer
    let s := { s.setTask event fun t => { t with pStackpointer } with stackPool }
    if pStackpointer = none then
      pure (none, ← s.enqueueEvent program event)
    else
      pure (some event, s.setTask event fun t => { t with pEnqueued := false })

/-- The call gets to `getFreeStack`, and that returns a null pointer. -/
def LacksStack (program : Program O E R) (s : FifoStrategy n E R) (cpu : Fin n) : Prop :=
  ∃ event s₁ stackPool, s.getReadyEvent program cpu = .ok (some event, s₁) ∧
    (s₁.eventTask event).pStackpointer = none ∧
    s₁.stackPool.getFreeStack n = .ok (none, stackPool)

/-- The call returns a null pointer and leaves the table of active tasks and both queues, as lists,
as they were. -/
def KeepsScheduler (program : Program O E R) (s : FifoStrategy n E R) (cpu : Fin n) : Prop :=
  ∃ s', s.getEvent program cpu = .ok (none, s') ∧ s'.pActiveEventTask = s.pActiveEventTask ∧
    (∀ l, s.mFifoQueue.Rep s.links l → s'.mFifoQueue.Rep s'.links l) ∧
    ∀ l, s.mFifoInterruptQueue.Rep s.links l → s'.mFifoInterruptQueue.Rep s'.links l

variable {program : Program O E R} {s s' : FifoStrategy n E R} {cpu : Fin n}

omit [DecidableEq O] in
theorem enqueueEvent_pActiveEventTask {eventtask : Task}
    (h : s.enqueueEvent program eventtask = .ok s') :
    s'.pActiveEventTask = s.pActiveEventTask := by
  unfold enqueueEvent at h
  cases hevent : ((s.setTask eventtask fun t => { t with pEnqueued := true }).eventTask
      eventtask).event with
  | none => simp [hevent] at h
  | some event =>
    simp only [hevent] at h
    split at h
    all_goals
      obtain ⟨⟨links, queue⟩, -, h⟩ := Exec.bind_eq_ok.mp h
      cases h
      rfl

end FifoStrategy

namespace EventQueue

theorem dequeueFirstLocked_granted [DecidableEq T] [Fintype T] {trigger : T → Option (Trigger O)}
    {active active' : Fin n → Option T} {cpu : Fin n} {k k' : QueueElements T} {q q' : Queue T}
    {res : Option T}
    (h : dequeueFirstLocked (fun active t => tryTaskLock trigger active cpu t) k q active =
      .ok (res, k', q', active')) :
    res = none ∧ active' = active ∨ ∃ t, res = some t ∧ Granted cpu active t active' := by
  obtain ⟨⟨event, active₁⟩, hlock, h⟩ := Exec.bind_eq_ok.mp h
  have hgranted := lockFrom_granted hlock
  cases event with
  | none =>
    cases h
    exact hgranted
  | some event =>
    cases h
    exact hgranted

end EventQueue

namespace FifoStrategy

variable {program : Program O E R} {s s' : FifoStrategy n E R} {cpu : Fin n}

theorem getReadyEvent_granted {event : Task}
    (h : s.getReadyEvent program cpu = .ok (some event, s')) :
    Granted cpu s.pActiveEventTask event s'.pActiveEventTask := by
  obtain ⟨⟨first, links, queue, active⟩, hinterrupt, h⟩ := Exec.bind_eq_ok.mp h
  rcases EventQueue.dequeueFirstLocked_granted hinterrupt with ⟨rfl, hsame⟩ | ⟨t, rfl, hgranted⟩
  · obtain ⟨⟨second, links', queue', active'⟩, hnormal, h⟩ := Exec.bind_eq_ok.mp h
    cases h
    rcases EventQueue.dequeueFirstLocked_granted hnormal with ⟨hnone, -⟩ | ⟨t, ht, hgranted⟩
    · cases hnone
    · cases ht
      rwa [hsame] at hgranted
  · cases h
    exact hgranted

theorem LacksStack.not_keepsScheduler (h : s.LacksStack program cpu) :
    ¬ s.KeepsScheduler program cpu := by
  obtain ⟨event, s₁, stackPool, hget, hstack, hpool⟩ := h
  rintro ⟨s', hs', hactive, -, -⟩
  obtain ⟨⟨res, s₂⟩, hget', hs'⟩ := Exec.bind_eq_ok.mp hs'
  cases hget.symm.trans hget'
  obtain ⟨⟨sp, pool⟩, hpool', hs'⟩ := Exec.bind_eq_ok.mp hs'
  rw [hstack, StackPool.provideStack] at hpool'
  cases hpool.symm.trans hpool'
  obtain ⟨s₂, henqueue, hs'⟩ := Exec.bind_eq_ok.mp hs'
  cases hs'
  have hkept := enqueueEvent_pActiveEventTask henqueue
  exact (getReadyEvent_granted hget).ne (hkept.symm.trans hactive)

end FifoStrategy

/-- Under neither strategy, from no state and on no CPU, does a call in which `getFreeStack` fails
leave the table of active tasks as it was. -/
theorem getEvent_not_keepsScheduler (program : Program O E R) (cpu : Fin n) :
    (∀ s : System n E R, s.LacksStack program cpu → ¬ s.KeepsScheduler program cpu) ∧
      ∀ s : FifoStrategy n E R, s.LacksStack program cpu → ¬ s.KeepsScheduler program cpu :=
  ⟨fun _ h => h.not_keepsScheduler, fun _ h => h.not_keepsScheduler⟩

/-- A task at the head of a queue is taken out if it can be locked. -/
theorem lockFrom_head [Fintype T] {next : T → Exec (Option T)} {lock : σ → T → Exec (Bool × σ)}
    {t : T} {s s' : σ} (h : lock s t = .ok (true, s')) :
    lockFrom next lock (Fintype.card T) (some t) s = .ok (some t, s') := by
  have : Nonempty T := ⟨t⟩
  have hcard : Fintype.card T ≠ 0 := Fintype.card_ne_zero
  obtain ⟨fuel, hfuel⟩ := Nat.exists_eq_succ_of_ne_zero hcard
  rw [hfuel, lockFrom, h]
  rfl

omit [DecidableEq O] in
theorem dequeueHighestPriority_head [DecidableEq T] [Fintype T] {trigger : T → Option (Trigger O)}
    {lock : σ → T → Exec (Bool × σ)} {k : QueueElements T} {q : Queue T} {t : T} {s s' : σ}
    (hq : q.pHead = some t) (h : lock s t = .ok (true, s')) :
    EventPriorityQueue.dequeueHighestPriority trigger lock k q s =
      .ok (some t, (q.removeElementFromList k t).1, (q.removeElementFromList k t).2, s') := by
  rw [EventPriorityQueue.dequeueHighestPriority, EventPriorityQueue.lockFirst_eq_lockFrom, hq,
    lockFrom_head h]
  rfl

theorem dequeueFirstLocked_head [DecidableEq T] [Fintype T] {lock : σ → T → Exec (Bool × σ)}
    {k : QueueElements T} {q : Queue T} {t : T} {s s' : σ} (hq : q.pHead = some t)
    (h : lock s t = .ok (true, s')) :
    EventQueue.dequeueFirstLocked lock k q s =
      .ok (some t, (q.removeElementFromList k t).1, (q.removeElementFromList k t).2, s') := by
  rw [EventQueue.dequeueFirstLocked, hq, lockFrom_head h]
  rfl

theorem dequeueFirstLocked_new [DecidableEq T] [Fintype T] {lock : σ → T → Exec (Bool × σ)}
    {k : QueueElements T} {s : σ} :
    EventQueue.dequeueFirstLocked lock k Queue.new s = .ok (none, k, Queue.new, s) := by
  rw [EventQueue.dequeueFirstLocked, Queue.new]
  cases Fintype.card T <;> rfl

def firstTask : Task := .pEventTasks ⟨0, by decide⟩

/-- The first task, alone in its queue. -/
def oneQueued : Queue Task := { pHead := some firstTask, pTail := some firstTask, pSize := 1 }

/-- Every task is to run the trigger of the program, and has no stack. -/
def toRun (_ : Task) : EventTask Bool Unit :=
  { event := some true, trigger := some (), pTimestamp := 0, pEnqueued := true, mArg := 0,
    pStackpointer := none }

def allStacksUsed : StackPool := { mUsedStacks := fun _ => true, mUsedPointer := 0 }

/-- One task is ready on a machine with one CPU. -/
def noStackLeft : System 1 Bool Unit where
  tasks := {
    links := .zeroed
    eventTask := toRun
    queues := fun q => if q = .mFifoQueue 0 then oneQueued else Queue.new
    pActiveEventTask := fun _ => none
    pLastEventID := 0 }
  subscriptions := noSubscribers
  pStackPointers _ := none
  stackPool := allStacksUsed

/-- The same under the fifo strategy. -/
def noStackLeftFifo : FifoStrategy 1 Bool Unit where
  links := .zeroed
  eventTask := toRun
  mFifoQueue := oneQueued
  mFifoInterruptQueue := Queue.new
  pActiveEventTask _ := none
  stackPool := allStacksUsed

theorem noStackLeft_lacksStack : noStackLeft.LacksStack oneTrigger 0 := by
  have hget : noStackLeft.tasks.getLocalOrGlobalEvent oneTrigger 0 = .ok (some firstTask,
      { noStackLeft.tasks.setQueue (.mFifoQueue 0)
          (oneQueued.removeElementFromList .zeroed firstTask).1
          (oneQueued.removeElementFromList .zeroed firstTask).2 with
        pActiveEventTask := Function.update (fun _ => none) 0 (some firstTask) }) := by
    have hhead : (noStackLeft.tasks.queues (.mFifoQueue (Fin.castSucc 0))).pHead =
      some firstTask := rfl
    have hlock : (fun active t => tryTaskLock (noStackLeft.tasks.trigger oneTrigger) active 0 t)
      noStackLeft.tasks.pActiveEventTask firstTask =
        .ok (true, Function.update (fun _ => none) 0 (some firstTask)) := rfl
    rw [Tasks.getLocalOrGlobalEvent, Tasks.getReadyEvent, Tasks.dequeueReady,
      dequeueHighestPriority_head hhead hlock]
    rfl
  exact ⟨firstTask, _, _, hget, rfl, rfl⟩

theorem noStackLeftFifo_lacksStack : noStackLeftFifo.LacksStack oneTrigger 0 := by
  have hget : noStackLeftFifo.getReadyEvent oneTrigger 0 = .ok (some firstTask,
      { noStackLeftFifo with
        links := (oneQueued.removeElementFromList .zeroed firstTask).1
        mFifoQueue := (oneQueued.removeElementFromList .zeroed firstTask).2
        pActiveEventTask := Function.update (fun _ => none) 0 (some firstTask) }) := by
    have hdequeue : EventQueue.dequeueFirstLocked
        (fun active t => tryTaskLock (noStackLeftFifo.trigger oneTrigger) active 0 t)
        noStackLeftFifo.links noStackLeftFifo.mFifoQueue noStackLeftFifo.pActiveEventTask =
      .ok (some firstTask, (oneQueued.removeElementFromList .zeroed firstTask).1,
        (oneQueued.removeElementFromList .zeroed firstTask).2,
        Function.update (fun _ => none) 0 (some firstTask)) :=
      dequeueFirstLocked_head rfl rfl
    have hempty : noStackLeftFifo.mFifoInterruptQueue = Queue.new := rfl
    simp only [FifoStrategy.getReadyEvent, hempty, dequeueFirstLocked_new, Exec.ok_bind, hdequeue]
    rfl
  exact ⟨firstTask, _, _, hget, rfl, rfl⟩

theorem getEvent_not_keepsScheduler_noStackLeft :
    ¬ noStackLeft.KeepsScheduler oneTrigger 0 ∧ ¬ noStackLeftFifo.KeepsScheduler oneTrigger 0 :=
  ⟨(getEvent_not_keepsScheduler oneTrigger 0).1 _ noStackLeft_lacksStack,
    (getEvent_not_keepsScheduler oneTrigger 0).2 _ noStackLeftFifo_lacksStack⟩

/-- The task stays in the table of active tasks, under both strategies. -/
theorem getEvent_keepsLock :
    ¬ (∀ s : System 1 Bool Unit, s.LacksStack oneTrigger 0 → s.KeepsScheduler oneTrigger 0) ∧
      ¬ ∀ s : FifoStrategy 1 Bool Unit, s.LacksStack oneTrigger 0 →
        s.KeepsScheduler oneTrigger 0 := by
  constructor
  · intro h
    exact noStackLeft_lacksStack.not_keepsScheduler (h _ noStackLeft_lacksStack)
  · intro h
    exact noStackLeftFifo_lacksStack.not_keepsScheduler (h _ noStackLeftFifo_lacksStack)

end CyPhOS
