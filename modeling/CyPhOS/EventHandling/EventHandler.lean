import CyPhOS.EventHandling.EventPriorityQueue
import CyPhOS.EventHandling.EventTask
import CyPhOS.EventHandling.StackPool
import CyPhOS.EventHandling.TaskLock

/-! # The event handler and its scheduler

The functions of `EventHandler` and `MultiQueuePriorityStrategy` that move tasks. The state is split
by what it is about: `Tasks` are the tasks, the queues they are linked into and the table of active
tasks; `Subscriptions` are the subscriber lists of the events and the pool that fired oneshot timer
events return to; the stacks are the rest. A function that does not touch a part does not take it.

Raising an event and finishing a task run on any CPU. A call runs to its end before the next one
begins: the pools, the ready queues, the table and the subscriber lists are each guarded by a lock
that is held for the access, and interrupts are off.
-/

namespace CyPhOS

/-- The queues that thread the links of the tasks. -/
inductive TaskQueue (n : Nat)
  | pEventTaskPoolQueue
  | pInterruptTaskPoolQueue
  | mFifoQueue (cpuNo : Fin (n + 1))
  deriving DecidableEq

/-- What does not change while the system runs. -/
structure Program (O E R : Type) where
  trigger : R → Trigger O
  pType : E → EventType
  mTimerEventType : E → TimerEventType
  pDummyEvent : E
  pDummyEvent_pType : pType pDummyEvent = .dummyCallEvent

structure Tasks (n : Nat) (E R : Type) where
  links : QueueElements Task
  eventTask : Task → EventTask E R
  queues : TaskQueue n → Queue Task
  pActiveEventTask : Fin n → Option Task
  pLastEventID : UInt64

structure Subscriptions (E R : Type) where
  triggerLinks : QueueElements R
  mSubscribers : E → Queue R
  timerEventLinks : QueueElements E
  mOneshotEventPool : Queue E

structure System (n : Nat) (E R : Type) where
  tasks : Tasks n E R
  subscriptions : Subscriptions E R
  pStackPointers : Fin n → Option Nat
  stackPool : StackPool

variable {n : Nat} {O E R : Type} [DecidableEq O]

/-! ## Tasks -/

namespace Tasks

/-- The trigger that a task points to. -/
def trigger (program : Program O E R) (s : Tasks n E R) (task : Task) : Option (Trigger O) :=
  (s.eventTask task).trigger.map program.trigger

/-- Write the fields of a task. -/
def setTask (s : Tasks n E R) (task : Task) (f : EventTask E R → EventTask E R) : Tasks n E R :=
  { s with eventTask := Function.update s.eventTask task (f (s.eventTask task)) }

/-- Put back a queue that an operation has changed. -/
def setQueue (s : Tasks n E R) (q : TaskQueue n) (links : QueueElements Task) (queue : Queue Task) :
    Tasks n E R :=
  { s with links, queues := Function.update s.queues q queue }

omit [DecidableEq O] in
theorem trigger_setTask {program : Program O E R} {s : Tasks n E R} {task : Task}
    {f : EventTask E R → EventTask E R}
    (hf : (f (s.eventTask task)).trigger = (s.eventTask task).trigger) :
    (s.setTask task f).trigger program = s.trigger program := by
  funext t
  by_cases ht : t = task
  · subst ht
    simp [trigger, setTask, hf]
  · simp [trigger, setTask, Function.update_of_ne ht]

/-- Take the first task of a pool and stamp it. -/
def takeFrom (pool : TaskQueue n) (s : Tasks n E R) : Exec (Option Task × Tasks n E R) := do
  match ← (s.queues pool).dequeueFirst s.links with
  | (some task, links, queue) =>
    let s := (s.setQueue pool links queue).setTask task
      fun t => { t with pTimestamp := s.pLastEventID }
    pure (some task, { s with pLastEventID := s.pLastEventID + 1 })
  | (none, links, queue) => pure (none, s.setQueue pool links queue)

def getTask : Tasks n E R → Exec (Option Task × Tasks n E R) := takeFrom .pEventTaskPoolQueue

def getInterruptTask : Tasks n E R → Exec (Option Task × Tasks n E R) :=
  takeFrom .pInterruptTaskPoolQueue

/-- Clean a task and put it into a pool. -/
def requeueTo (pool : TaskQueue n) (s : Tasks n E R) (task : Task) : Exec (Tasks n E R) := do
  let s := s.setTask task fun t =>
    { t with pStackpointer := none, pEnqueued := false, event := none, trigger := none }
  let (links, queue) ← (s.queues pool).enqueueFast s.links task
  pure (s.setQueue pool links queue)

def requeueEventTask : Tasks n E R → Task → Exec (Tasks n E R) := requeueTo .pEventTaskPoolQueue

def requeueInterruptEventTask : Tasks n E R → Task → Exec (Tasks n E R) :=
  requeueTo .pInterruptTaskPoolQueue

/-- The index of the ready queue for an affinity, which is first cut down to a `cpu_t`. A number
that is no CPU stands for the queue of all CPUs. -/
def readyQueue (pAffinity : Nat) : Fin (n + 1) :=
  if h : pAffinity % 2 ^ 8 < n then ⟨pAffinity % 2 ^ 8, Nat.lt_succ_of_lt h⟩ else Fin.last n

def enqueueEvent (program : Program O E R) (s : Tasks n E R) (eventtask : Task) :
    Exec (Tasks n E R) := do
  let cpuNo : Fin (n + 1) := readyQueue (← derefTrigger (s.trigger program) eventtask).pAffinity
  let s := s.setTask eventtask fun t => { t with pEnqueued := true }
  let (links, queue) ← EventPriorityQueue.enqueue (s.trigger program) s.links
    (s.queues (.mFifoQueue cpuNo)) eventtask
  pure (s.setQueue (.mFifoQueue cpuNo) links queue)

def readyTask (program : Program O E R) : Tasks n E R → Task → Exec (Tasks n E R) :=
  enqueueEvent program

/-- `dequeueHighestPriority` of one of the ready queues, on the CPU `cpu`. -/
def dequeueReady (program : Program O E R) (s : Tasks n E R) (cpu : Fin n) (cpuNo : Fin (n + 1)) :
    Exec (Option Task × Tasks n E R) := do
  let (eventtask, links, queue, pActiveEventTask) ←
    EventPriorityQueue.dequeueHighestPriority (s.trigger program)
      (fun active task => tryTaskLock (s.trigger program) active cpu task) s.links
      (s.queues (.mFifoQueue cpuNo)) s.pActiveEventTask
  pure (eventtask, { s.setQueue (.mFifoQueue cpuNo) links queue with pActiveEventTask })

def getReadyEvent (program : Program O E R) (s : Tasks n E R) (cpu : Fin n) :
    Exec (Option Task × Tasks n E R) :=
  s.dequeueReady program cpu cpu.castSucc

def getGlobalReadyEvent (program : Program O E R) (s : Tasks n E R) (cpu : Fin n) :
    Exec (Option Task × Tasks n E R) :=
  s.dequeueReady program cpu (Fin.last n)

/-- The queue of the CPU, then the queue of all CPUs. -/
def getLocalOrGlobalEvent (program : Program O E R) (s : Tasks n E R) (cpu : Fin n) :
    Exec (Option Task × Tasks n E R) := do
  match ← s.getReadyEvent program cpu with
  | (none, s) => s.getGlobalReadyEvent program cpu
  | (some eventtask, s) => pure (some eventtask, s)

/-- A finished task loses its stack and its locks. -/
def finish (s : Tasks n E R) (cpu : Fin n) (eventtask : Task) : Tasks n E R :=
  let s := s.setTask eventtask fun t => { t with pStackpointer := none }
  { s with pActiveEventTask := unlockTask s.pActiveEventTask cpu eventtask }

theorem finish_event (s : Tasks n E R) (cpu : Fin n) (eventtask : Task) :
    ((s.finish cpu eventtask).eventTask eventtask).event = (s.eventTask eventtask).event := by
  simp [finish, setTask]

/-- The loop over the subscribers from `trigger` on: a task for each, until the pool is empty. -/
def triggerSubscribers (program : Program O E R) (pool : TaskQueue n) (links : QueueElements R)
    (event : E) (arg : UInt32) : Nat → Option R → Tasks n E R → Exec (Tasks n E R)
  | _, none, s => .ok s
  | 0, some _, _ => .error .hang
  | fuel + 1, some trigger, s => do
    match ← s.takeFrom pool with
    | (none, s) => pure s
    | (some newCon, s) =>
      let s := s.setTask newCon fun t =>
        { t with event := some event, trigger := some trigger, mArg := arg }
      let s ← s.readyTask program newCon
      triggerSubscribers program pool links event arg fuel (links.pNext trigger) s

end Tasks

/-! ## The calls -/

namespace Subscriptions

variable [DecidableEq E] [DecidableEq R]

def subscribeEvent [Fintype R] (s : Subscriptions E R) (event : E) (trigger : R) :
    Exec (Subscriptions E R) := do
  let (triggerLinks, queue) ← (s.mSubscribers event).enqueue s.triggerLinks trigger
  pure { s with triggerLinks, mSubscribers := Function.update s.mSubscribers event queue }

def unsubscribeEvent [Fintype R] (s : Subscriptions E R) (event : E) (trigger : R) :
    Exec (Subscriptions E R) := do
  let (triggerLinks, queue) ← (s.mSubscribers event).remove s.triggerLinks trigger
  pure { s with triggerLinks, mSubscribers := Function.update s.mSubscribers event queue }

/-- `GenericTimer::returnOneshotEventToPool`. -/
def returnOneshotEventToPool [Fintype R] (s : Subscriptions E R) (event : E) :
    Exec (Subscriptions E R) := do
  let (triggerLinks, queue) ← (s.mSubscribers event).clearList s.triggerLinks
  let (timerEventLinks, mOneshotEventPool) ← s.mOneshotEventPool.enqueueFast s.timerEventLinks event
  pure { triggerLinks, mSubscribers := Function.update s.mSubscribers event queue,
         timerEventLinks, mOneshotEventPool }

end Subscriptions

namespace System

/-- The constructors of `EventHandler`, `MultiQueuePriorityStrategy` and `StackPool`. The objects are
static, in zeroed storage. -/
@[irreducible] def boot (subscriptions : Subscriptions E R) : Exec (System n E R) := do
  let eventTask (_ : Task) : EventTask E R :=
    { event := none, trigger := none, pTimestamp := 0, pEnqueued := false, mArg := 0,
      pStackpointer := none }
  let (links, pEventTaskPoolQueue) ←
    Queue.new.enqueueAll QueueElements.zeroed (List.ofFn Task.pEventTasks)
  let (links, pInterruptTaskPoolQueue) ← Queue.new.enqueueAll links (List.ofFn Task.pInterruptTasks)
  let queues : TaskQueue n → Queue Task
    | .pEventTaskPoolQueue => pEventTaskPoolQueue
    | .pInterruptTaskPoolQueue => pInterruptTaskPoolQueue
    | .mFifoQueue _ => Queue.new
  pure {
    tasks := { links, eventTask, queues, pActiveEventTask := fun _ => none, pLastEventID := 0 }
    subscriptions
    pStackPointers := fun _ => none
    stackPool := StackPool.new }

/-- Every subscriber gets a task from the pool. The loop over the subscribers ends with their list,
and over links that are no list when the pool is empty. -/
def raise [Fintype R] (program : Program O E R) (pool : TaskQueue n) (s : System n E R) (event : E)
    (arg : UInt32) : Exec (System n E R) := do
  let tasks ← s.tasks.triggerSubscribers program pool s.subscriptions.triggerLinks event arg
    (Fintype.card R + Fintype.card Task + 1)
    ((s.subscriptions.mSubscribers event).get s.subscriptions.triggerLinks 0)
  pure { s with tasks }

def eventTriggered [Fintype R] (program : Program O E R) :
    System n E R → E → UInt32 → Exec (System n E R) :=
  raise program .pEventTaskPoolQueue

def interruptEventTriggered [Fintype R] (program : Program O E R) :
    System n E R → E → UInt32 → Exec (System n E R) :=
  raise program .pInterruptTaskPoolQueue

def callOSCTrigger (program : Program O E R) (s : System n E R) (trigger : R) (arg : UInt32) :
    Exec (System n E R) := do
  match ← s.tasks.getTask with
  | (none, tasks) => pure { s with tasks }
  | (some con, tasks) =>
    let tasks := tasks.setTask con fun t =>
      { t with trigger := some trigger, mArg := arg, event := some program.pDummyEvent }
    pure { s with tasks := ← tasks.readyTask program con }

/-- `MultiQueuePriorityStrategy::getEvent`. -/
def getEvent (program : Program O E R) (s : System n E R) (cpu : Fin n) :
    Exec (Option Task × System n E R) := do
  match ← s.tasks.getLocalOrGlobalEvent program cpu with
  | (none, tasks) => pure (none, { s with tasks })
  | (some eventtask, tasks) =>
    let (pStackpointer, stackPool) ←
      s.stackPool.provideStack n (tasks.eventTask eventtask).pStackpointer
    let tasks := tasks.setTask eventtask fun t => { t with pStackpointer }
    if pStackpointer = none then
      pure (none, { s with tasks := ← tasks.enqueueEvent program eventtask, stackPool })
    else
      let tasks := tasks.setTask eventtask fun t => { t with pEnqueued := false }
      pure (some eventtask, { s with tasks, stackPool })

/-- The start of `dispatching`: the stack of the task before goes back to the pool. -/
def releaseStack (s : System n E R) (cpu : Fin n) : System n E R :=
  match s.pStackPointers cpu with
  | none => s
  | some sp => { s with
      stackPool := s.stackPool.setStackFree n sp
      pStackPointers := Function.update s.pStackPointers cpu none }

/-- One round of the loop of `dispatching`, with the part of `activateOSC` that concerns the
stack. The loop hangs if the task is not the one that is locked. -/
def dispatchEvent (program : Program O E R) (s : System n E R) (cpu : Fin n) :
    Exec (Option Task × System n E R) := do
  let (task, s) ← s.getEvent program cpu
  if task ≠ s.tasks.pActiveEventTask cpu then .error .hang
  else match task with
    | none => pure (none, s)
    | some event =>
      let pStackPointers :=
        Function.update s.pStackPointers cpu (s.tasks.eventTask event).pStackpointer
      pure (some event, { s with pStackPointers })

/-- `eventTaskFinished`, without the cache. -/
def eventTaskFinished [DecidableEq E] [DecidableEq R] [Fintype R] (program : Program O E R)
    (s : System n E R) (cpu : Fin n) : Exec (System n E R) := do
  match s.tasks.pActiveEventTask cpu with
  | none => .error .nullDereference
  | some eventtask =>
    let tasks := s.tasks.finish cpu eventtask
    match (tasks.eventTask eventtask).event with
    | none => .error .nullDereference
    | some event =>
      if program.pType event = .interruptEvent then
        pure { s with tasks := ← tasks.requeueInterruptEventTask eventtask }
      else if program.pType event = .timerEvent ∧ program.mTimerEventType event = .oneshot then
        let subscriptions ← s.subscriptions.returnOneshotEventToPool event
        pure { s with tasks := ← tasks.requeueEventTask eventtask, subscriptions }
      else
        pure { s with tasks := ← tasks.requeueEventTask eventtask }

end System

end CyPhOS
