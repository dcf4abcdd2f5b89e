import CyPhOS.EventHandling.Conservation
import CyPhOS.EventHandling.Strategy

/-! # The dispatcher, between two lock attempts

The calls of the scheduler, cut where another CPU can come in between. A CPU that looks for a task
holds the lock of the queue it scans, from the head of the queue on until it has locked a task and
taken it out, or until it has reached the end; the table of active tasks is locked for each attempt
only. `Control` is the place of a CPU in its cycle, `Step` what can happen next: an event task is
put into a queue, or one CPU goes on. A task is put into a queue when nobody scans it, after it has
come from a pool, where its fields are null.

`Good m lists` is the invariant of all runs, where `lists` are the contents of the queues. It says
that the position of a scan is a position in the list of its queue, that a CPU has locked the task
which `getEvent` is about to return and no other, and that a CPU which asks for a stack holds none.
-/

namespace CyPhOS

open Transition

namespace Dispatcher

/-- Where a CPU is in its cycle. -/
inductive Control (T Q : Type)
  | dispatching
  | waiting
  | searching (rest : List Q)
  | scanning (q : Q) (retEl : Option T) (rest : List Q)
  | dequeued (eventtask : T)
  | requeueing (eventtask : T)
  | returned (task : Option T)
  | executing
  | errorLoop
  deriving DecidableEq

/-- The queue whose lock the CPU holds. -/
def Control.heldLock {T Q : Type} : Control T Q → Option Q
  | scanning q _ _ => some q
  | _ => none

/-- What the place of a CPU says about its active task. -/
def Control.Agrees {T Q : Type} : Control T Q → Option T → Prop
  | dequeued eventtask, active => active = some eventtask
  | returned task, active => active = task
  | executing, active => active ≠ none
  | requeueing _, _ | errorLoop, _ => False
  | _, active => active = none

/-- The CPU has no task with a stack, and no stack to give back. -/
def Control.Stackless {T Q : Type} : Control T Q → Prop
  | dispatching | executing | returned (some _) => False
  | _ => True

structure State (n : Nat) (E R T Q : Type) where
  links : QueueElements T
  eventTask : T → EventTask E R
  queues : Q → Queue T
  pActiveEventTask : Fin n → Option T
  pStackPointers : Fin n → Option Nat
  stackPool : StackPool
  control : Fin n → Control T Q

variable {n : Nat} {O E R T Q : Type}

namespace State

/-- The trigger that a task points to. -/
def trigger (program : Program O E R) (m : State n E R T Q) (task : T) : Option (Trigger O) :=
  (m.eventTask task).trigger.map program.trigger

def goto (m : State n E R T Q) (cpu : Fin n) (control : Control T Q) : State n E R T Q :=
  { m with control := Function.update m.control cpu control }

/-- Write the fields of a task. -/
def setTask [DecidableEq T] (m : State n E R T Q) (task : T)
    (f : EventTask E R → EventTask E R) : State n E R T Q :=
  { m with eventTask := Function.update m.eventTask task (f (m.eventTask task)) }

/-- No CPU holds the lock of the queue. -/
def Unlocked (m : State n E R T Q) (q : Q) : Prop := ∀ cpu, (m.control cpu).heldLock ≠ some q

variable [DecidableEq T] [Fintype T] [DecidableEq Q]

/-- `enqueueEvent` of a strategy. The tasks that it is called with have a trigger and an event. -/
def enqueueEvent (strategy : Strategy n O T Q) (program : Program O E R) (m : State n E R T Q)
    (eventtask : T) : Exec (State n E R T Q) :=
  match (m.eventTask eventtask).trigger, (m.eventTask eventtask).event with
  | some trigger, some event => do
    let q := strategy.queueOf (program.trigger trigger) (program.pType event)
    let m := m.setTask eventtask fun t => { t with pEnqueued := true }
    let (links, queue) ← strategy.enqueue (m.trigger program) m.links (m.queues q) eventtask
    pure { m with links, queues := Function.update m.queues q queue }
  | _, _ => .error .nullDereference

/-- The task that a scan has locked leaves the queue. -/
def dequeue (m : State n E R T Q) (q : Q) (eventtask : T) : State n E R T Q :=
  let removed := (m.queues q).removeElementFromList m.links eventtask
  { m with links := removed.1, queues := Function.update m.queues q removed.2 }

omit [Fintype T] [DecidableEq Q] in
/-- The stack of the task before goes back to the pool. -/
def releaseStack (m : State n E R T Q) (cpu : Fin n) : State n E R T Q :=
  match m.pStackPointers cpu with
  | none => m
  | some sp => { m with
      stackPool := m.stackPool.setStackFree n sp
      pStackPointers := Function.update m.pStackPointers cpu none }

/-- The dispatch loop, after `getEvent` has returned. -/
def activate (m : State n E R T Q) (cpu : Fin n) (task : Option T) :
    State n E R T Q :=
  if task ≠ m.pActiveEventTask cpu then m.goto cpu .errorLoop
  else match task with
    | none => m.goto cpu .waiting
    | some event =>
      let sp := (m.eventTask event).pStackpointer
      { m with pStackPointers := Function.update m.pStackPointers cpu sp }.goto cpu .executing

/-- `eventTaskFinished`: the task loses its stack and its locks and goes back, cleaned, to its
pool. -/
def eventTaskFinished (m : State n E R T Q) (cpu : Fin n) (eventtask : T) : State n E R T Q :=
  let m := m.setTask eventtask fun t =>
    { t with pStackpointer := none, pEnqueued := false, event := none, trigger := none }
  { m with pActiveEventTask := unlockTask m.pActiveEventTask cpu eventtask }

/-- After the constructors. -/
def initial : State n E R T Q where
  links := .zeroed
  eventTask _ := { event := none, trigger := none, pTimestamp := 0, pEnqueued := false, mArg := 0,
                   pStackpointer := none }
  queues _ := Queue.new
  pActiveEventTask _ := none
  pStackPointers _ := none
  stackPool := StackPool.new
  control _ := .dispatching

end State

inductive Label (n : Nat) (E R T Q : Type)
  | enqueueEvent (eventtask : T) (event : E) (trigger : R)
  | releaseStack (cpu : Fin n)
  | getEvent (cpu : Fin n)
  | lockQueue (cpu : Fin n)
  | refused (cpu : Fin n)
  | locked (cpu : Fin n) (q : Q) (eventtask : T) (trigger : R)
  | unlockQueue (cpu : Fin n)
  | noEvent (cpu : Fin n)
  | getFreeStack (cpu : Fin n)
  | noStack (cpu : Fin n)
  | requeue (cpu : Fin n)
  | activate (cpu : Fin n)
  | eventTaskFinished (cpu : Fin n)

section
variable [DecidableEq O] [DecidableEq T] [Fintype T] [DecidableEq Q]
  (strategy : Strategy n O T Q) (program : Program O E R)

/-- What can happen next. -/
inductive Step : State n E R T Q → Label n E R T Q → State n E R T Q → Prop
  | enqueueEvent {m m' t e r} (hpool : (m.eventTask t).trigger = none)
      (hfree : m.Unlocked (strategy.queueOf (program.trigger r) (program.pType e)))
      (hcall : (m.setTask t fun x => { x with event := some e, trigger := some r }).enqueueEvent
        strategy program t = .ok m') :
      Step m (.enqueueEvent t e r) m'
  | releaseStack {m cpu} (hcontrol : m.control cpu = .dispatching) :
      Step m (.releaseStack cpu) ((m.releaseStack cpu).goto cpu .waiting)
  | getEvent {m cpu} (hcontrol : m.control cpu = .waiting) :
      Step m (.getEvent cpu) (m.goto cpu (.searching (strategy.scanned cpu)))
  | lockQueue {m cpu q rest} (hcontrol : m.control cpu = .searching (q :: rest))
      (hfree : m.Unlocked q) :
      Step m (.lockQueue cpu) (m.goto cpu (.scanning q (m.queues q).pHead rest))
  | refused {m cpu q t rest o} (hcontrol : m.control cpu = .scanning q (some t) rest)
      (hcall : tryTaskLock (m.trigger program) m.pActiveEventTask cpu t =
        .ok (false, m.pActiveEventTask))
      (hnext : strategy.next (m.trigger program) m.links t = .ok o) :
      Step m (.refused cpu) (m.goto cpu (.scanning q o rest))
  | locked {m cpu q t rest active r} (hcontrol : m.control cpu = .scanning q (some t) rest)
      (hcall : tryTaskLock (m.trigger program) m.pActiveEventTask cpu t = .ok (true, active))
      (htrigger : (m.eventTask t).trigger = some r) :
      Step m (.locked cpu q t r)
        ({ m.dequeue q t with pActiveEventTask := active }.goto cpu (.dequeued t))
  | unlockQueue {m cpu q rest} (hcontrol : m.control cpu = .scanning q none rest) :
      Step m (.unlockQueue cpu) (m.goto cpu (.searching rest))
  | noEvent {m cpu} (hcontrol : m.control cpu = .searching []) :
      Step m (.noEvent cpu) (m.goto cpu (.returned none))
  | getFreeStack {m cpu t sp stackPool} (hcontrol : m.control cpu = .dequeued t)
      (hcall : m.stackPool.provideStack n (m.eventTask t).pStackpointer =
        .ok (some sp, stackPool)) :
      Step m (.getFreeStack cpu)
        ({ m.setTask t fun x => { x with pStackpointer := some sp, pEnqueued := false } with
          stackPool }.goto cpu (.returned (some t)))
  | noStack {m cpu t stackPool} (hcontrol : m.control cpu = .dequeued t)
      (hcall : m.stackPool.provideStack n (m.eventTask t).pStackpointer = .ok (none, stackPool)) :
      Step m (.noStack cpu) ({ m with stackPool }.goto cpu (.requeueing t))
  | requeue {m m' cpu t r e} (hcontrol : m.control cpu = .requeueing t)
      (htrigger : (m.eventTask t).trigger = some r) (hevent : (m.eventTask t).event = some e)
      (hfree : m.Unlocked (strategy.queueOf (program.trigger r) (program.pType e)))
      (hcall : m.enqueueEvent strategy program t = .ok m') :
      Step m (.requeue cpu) (m'.goto cpu (.returned none))
  | activate {m cpu task} (hcontrol : m.control cpu = .returned task) :
      Step m (.activate cpu) (m.activate cpu task)
  | eventTaskFinished {m cpu t} (hcontrol : m.control cpu = .executing)
      (hactive : m.pActiveEventTask cpu = some t) :
      Step m (.eventTaskFinished cpu) ((m.eventTaskFinished cpu t).goto cpu .dispatching)

end

/-! ## Running the machine -/

section
variable [DecidableEq O] [DecidableEq T] [Fintype T] [DecidableEq Q]
  (strategy : Strategy n O T Q) (program : Program O E R)

/-- The state after a step, if the step is possible. -/
def State.after [DecidableEq R] (m : State n E R T Q) : Label n E R T Q → Option (State n E R T Q)
  | .enqueueEvent t e r =>
    if (m.eventTask t).trigger = none ∧ ∀ cpu, (m.control cpu).heldLock ≠
        some (strategy.queueOf (program.trigger r) (program.pType e)) then
      ((m.setTask t fun x => { x with event := some e, trigger := some r }).enqueueEvent
        strategy program t).toOption
    else none
  | .releaseStack cpu => match m.control cpu with
    | .dispatching => some ((m.releaseStack cpu).goto cpu .waiting)
    | _ => none
  | .getEvent cpu => match m.control cpu with
    | .waiting => some (m.goto cpu (.searching (strategy.scanned cpu)))
    | _ => none
  | .lockQueue cpu => match m.control cpu with
    | .searching (q :: rest) =>
      if ∀ cpu', (m.control cpu').heldLock ≠ some q then
        some (m.goto cpu (.scanning q (m.queues q).pHead rest))
      else none
    | _ => none
  | .refused cpu => match m.control cpu with
    | .scanning q (some t) rest =>
      match tryTaskLock (m.trigger program) m.pActiveEventTask cpu t,
        strategy.next (m.trigger program) m.links t with
      | .ok (false, _), .ok o => some (m.goto cpu (.scanning q o rest))
      | _, _ => none
    | _ => none
  | .locked cpu q t r => match m.control cpu with
    | .scanning q' (some t') _ =>
      if q' = q ∧ t' = t ∧ (m.eventTask t).trigger = some r then
        match tryTaskLock (m.trigger program) m.pActiveEventTask cpu t with
        | .ok (true, active) =>
          some ({ m.dequeue q t with pActiveEventTask := active }.goto cpu (.dequeued t))
        | _ => none
      else none
    | _ => none
  | .unlockQueue cpu => match m.control cpu with
    | .scanning _ none rest => some (m.goto cpu (.searching rest))
    | _ => none
  | .noEvent cpu => match m.control cpu with
    | .searching [] => some (m.goto cpu (.returned none))
    | _ => none
  | .getFreeStack cpu => match m.control cpu with
    | .dequeued t =>
      match m.stackPool.provideStack n (m.eventTask t).pStackpointer with
      | .ok (some sp, stackPool) =>
        some ({ m.setTask t fun x => { x with pStackpointer := some sp, pEnqueued := false } with
          stackPool }.goto cpu (.returned (some t)))
      | _ => none
    | _ => none
  | .noStack cpu => match m.control cpu with
    | .dequeued t =>
      match m.stackPool.provideStack n (m.eventTask t).pStackpointer with
      | .ok (none, stackPool) => some ({ m with stackPool }.goto cpu (.requeueing t))
      | _ => none
    | _ => none
  | .requeue cpu => match m.control cpu with
    | .requeueing t =>
      match (m.eventTask t).trigger, (m.eventTask t).event with
      | some r, some e =>
        if ∀ cpu', (m.control cpu').heldLock ≠
            some (strategy.queueOf (program.trigger r) (program.pType e)) then
          (m.enqueueEvent strategy program t).toOption.map fun m => m.goto cpu (.returned none)
        else none
      | _, _ => none
    | _ => none
  | .activate cpu => match m.control cpu with
    | .returned task => some (m.activate cpu task)
    | _ => none
  | .eventTaskFinished cpu => match m.control cpu, m.pActiveEventTask cpu with
    | .executing, some t => some ((m.eventTaskFinished cpu t).goto cpu .dispatching)
    | _, _ => none

variable {strategy program} [DecidableEq R] {m m' : State n E R T Q} {l : Label n E R T Q}

theorem Step.of_after (h : m.after strategy program l = some m') :
    Step strategy program m l m' := by
  cases l with
  | enqueueEvent t e r =>
    simp only [State.after] at h
    split at h
    · next hpool => exact .enqueueEvent hpool.1 hpool.2 (Exec.toOption_eq_some.mp h)
    · cases h
  | releaseStack cpu =>
    simp only [State.after] at h
    split at h <;> cases h
    exact .releaseStack ‹_›
  | getEvent cpu =>
    simp only [State.after] at h
    split at h <;> cases h
    exact .getEvent ‹_›
  | lockQueue cpu =>
    simp only [State.after] at h
    split at h
    · split at h
      · next hfree =>
        cases h
        exact .lockQueue ‹_› hfree
      · cases h
    · cases h
  | refused cpu =>
    simp only [State.after] at h
    split at h
    · split at h
      · next htry hnext =>
        cases h
        obtain ⟨-, hsame⟩ := tryTaskLock_cases htry
        obtain rfl := by simpa using hsame
        exact .refused ‹_› htry hnext
      · cases h
    · cases h
  | locked cpu q t r =>
    simp only [State.after] at h
    split at h
    · split at h
      · next hsame =>
        obtain ⟨rfl, rfl, hr⟩ := hsame
        split at h
        · next htry =>
          cases h
          exact .locked ‹_› htry hr
        · cases h
      · cases h
    · cases h
  | unlockQueue cpu =>
    simp only [State.after] at h
    split at h <;> cases h
    exact .unlockQueue ‹_›
  | noEvent cpu =>
    simp only [State.after] at h
    split at h <;> cases h
    exact .noEvent ‹_›
  | getFreeStack cpu =>
    simp only [State.after] at h
    split at h
    · split at h <;> cases h
      exact .getFreeStack ‹_› ‹_›
    · cases h
  | noStack cpu =>
    simp only [State.after] at h
    split at h
    · split at h <;> cases h
      exact .noStack ‹_› ‹_›
    · cases h
  | requeue cpu =>
    simp only [State.after] at h
    split at h
    · split at h
      · split at h
        · next hfree =>
          obtain ⟨m₁, hcall, rfl⟩ := Option.map_eq_some_iff.mp h
          exact .requeue ‹_› ‹_› ‹_› hfree (Exec.toOption_eq_some.mp hcall)
        · cases h
      · cases h
    · cases h
  | activate cpu =>
    simp only [State.after] at h
    split at h <;> cases h
    exact .activate ‹_›
  | eventTaskFinished cpu =>
    simp only [State.after] at h
    split at h <;> cases h
    exact .eventTaskFinished ‹_› ‹_›

/-- A run that is computed. -/
theorem run_of_afterAll {ls : List (Label n E R T Q)}
    (h : ls.foldlM (State.after strategy program) m = some m') :
    Run (Step strategy program) m ls m' := by
  induction ls generalizing m with
  | nil =>
    cases h
    exact .nil
  | cons l ls ih =>
    obtain ⟨m₁, hstep, hrest⟩ := Option.bind_eq_some_iff.mp h
    exact run_cons_iff.mpr ⟨m₁, .of_after hstep, ih hrest⟩

end

/-! ## A scan that nobody interrupts -/

section
variable [DecidableEq O] [DecidableEq T] [Fintype T] [DecidableEq Q] {strategy : Strategy n O T Q}
  {program : Program O E R}

omit [DecidableEq O] [Fintype T] [DecidableEq T] [DecidableEq Q] in
theorem State.goto_self {m : State n E R T Q} {cpu : Fin n} {c : Control T Q}
    (h : m.control cpu = c) : m.goto cpu c = m := by
  subst h
  simp [State.goto]

variable (strategy program) in
/-- The steps of one CPU alone make up the loop over the queue. -/
theorem lockFrom_run {m : State n E R T Q} {cpu : Fin n} {q : Q} {rest : List Q} {fuel : Nat}
    {retEl ret : Option T} {active : Fin n → Option T}
    (hcontrol : m.control cpu = .scanning q retEl rest)
    (hcall : lockFrom (strategy.next (m.trigger program) m.links)
      (fun active t => tryTaskLock (m.trigger program) active cpu t) fuel retEl
      m.pActiveEventTask = .ok (ret, active)) :
    ∃ ls, Run (Step strategy program) m ls (match ret with
      | none => { m with pActiveEventTask := active }.goto cpu (.scanning q none rest)
      | some t => { m.dequeue q t with pActiveEventTask := active }.goto cpu (.dequeued t)) := by
  induction fuel generalizing m retEl with
  | zero =>
    cases retEl with
    | none =>
      cases hcall
      refine ⟨[], ?_⟩
      rw [State.goto_self hcontrol]
      exact .nil
    | some t => cases hcall
  | succ fuel ih =>
    cases retEl with
    | none =>
      cases hcall
      refine ⟨[], ?_⟩
      rw [State.goto_self hcontrol]
      exact .nil
    | some t =>
      obtain ⟨⟨locked, active'⟩, htry, hrest⟩ := Exec.bind_eq_ok.mp hcall
      obtain ⟨⟨tr, osc, htr, -⟩, hcases⟩ := tryTaskLock_cases htry
      rcases hcases with ⟨rfl, rfl⟩ | ⟨rfl, -⟩
      · obtain ⟨o, hnext, hscan⟩ := Exec.bind_eq_ok.mp hrest
        have hstep : Step strategy program m (.refused cpu) (m.goto cpu (.scanning q o rest)) :=
          .refused hcontrol htry hnext
        obtain ⟨ls, hrun⟩ := @ih (m.goto cpu (.scanning q o rest)) o (by simp [State.goto]) hscan
        refine ⟨.refused cpu :: ls, run_cons_iff.mpr ⟨_, hstep, ?_⟩⟩
        cases ret with
        | none => simpa [State.goto] using hrun
        | some t => simpa [State.goto, State.dequeue] using hrun
      · cases hrest
        obtain ⟨r, hr, -⟩ := Option.map_eq_some_iff.mp htr
        exact ⟨[.locked cpu q t r], .single (.locked hcontrol htry hr)⟩

/-- Under the priority strategy they make up `dequeueHighestPriority`. -/
theorem dequeueHighestPriority_run {m : State n E R T (Fin (n + 1))} {cpu : Fin n}
    {q : Fin (n + 1)} {rest : List (Fin (n + 1))} {t : T} {links : QueueElements T}
    {queue : Queue T} {active : Fin n → Option T}
    (hcontrol : m.control cpu = .scanning q (m.queues q).pHead rest)
    (hcall : EventPriorityQueue.dequeueHighestPriority (m.trigger program)
      (fun active t => tryTaskLock (m.trigger program) active cpu t) m.links (m.queues q)
      m.pActiveEventTask = .ok (some t, links, queue, active)) :
    ∃ ls, Run (Step multiQueuePriorityStrategy program) m ls
      ({ m with links, queues := Function.update m.queues q queue,
                pActiveEventTask := active }.goto cpu (.dequeued t)) := by
  obtain ⟨⟨ret, active'⟩, hlock, hrest⟩ := Exec.bind_eq_ok.mp hcall
  rw [EventPriorityQueue.lockFirst_eq_lockFrom] at hlock
  cases ret with
  | none => cases hrest
  | some t' =>
    cases hrest
    exact lockFrom_run multiQueuePriorityStrategy program hcontrol hlock

/-- Under the fifo strategy they make up `dequeueFirstLocked`. -/
theorem dequeueFirstLocked_run {m : State n E R T (FifoQueue n)} {cpu : Fin n}
    {q : FifoQueue n} {rest : List (FifoQueue n)} {t : T} {links : QueueElements T}
    {queue : Queue T} {active : Fin n → Option T}
    (hcontrol : m.control cpu = .scanning q (m.queues q).pHead rest)
    (hcall : EventQueue.dequeueFirstLocked
      (fun active t => tryTaskLock (m.trigger program) active cpu t) m.links (m.queues q)
      m.pActiveEventTask = .ok (some t, links, queue, active)) :
    ∃ ls, Run (Step multiFifoStrategy program) m ls
      ({ m with links, queues := Function.update m.queues q queue,
                pActiveEventTask := active }.goto cpu (.dequeued t)) := by
  obtain ⟨⟨ret, active'⟩, hlock, hrest⟩ := Exec.bind_eq_ok.mp hcall
  cases ret with
  | none => cases hrest
  | some t' =>
    cases hrest
    exact lockFrom_run multiFifoStrategy program hcontrol hlock

end

/-! ## The invariant -/

/-- The queues are the lists, and each scan is at a position of its list. -/
structure Lined [DecidableEq T] [Fintype T] (strategy : Strategy n O T Q)
    (program : Program O E R) (m : State n E R T Q) (lists : Q → List T) : Prop where
  family : Queue.Family m.links m.queues lists
  kept : ∀ q, strategy.Kept (m.trigger program) (lists q)
  queued : ∀ q, ∀ t ∈ lists q, ∃ r e, (m.eventTask t).trigger = some r ∧
    (m.eventTask t).event = some e ∧
    strategy.queueOf (program.trigger r) (program.pType e) = q
  scan : ∀ cpu q o rest, m.control cpu = .scanning q o rest →
    ∃ xs ys, lists q = xs ++ ys ∧ o = ys.head?
  locks : ∀ cpu cpu' q, (m.control cpu).heldLock = some q → (m.control cpu').heldLock = some q →
    cpu = cpu'

/-- Each CPU has locked the task that its place in the cycle says. -/
structure Cycled (m : State n E R T Q) (lists : Q → List T) : Prop where
  agrees : ∀ cpu, (m.control cpu).Agrees (m.pActiveEventTask cpu)
  active : ∀ cpu t, m.pActiveEventTask cpu = some t →
    (m.eventTask t).trigger ≠ none ∧ ∀ q, t ∉ lists q
  once : ∀ cpu cpu' t, m.pActiveEventTask cpu = some t → m.pActiveEventTask cpu' = some t →
    cpu = cpu'

/-- The stack that a CPU has to give back: that of the task which `getEvent` returns, later the one
noted in `pStackPointers`. -/
def State.heldStack (m : State n E R T Q) (cpu : Fin n) : Option Nat :=
  match m.control cpu with
  | .returned (some t) => (m.eventTask t).pStackpointer
  | _ => m.pStackPointers cpu

/-- Every stack in use is held by one CPU, and only the task of a CPU that holds one has one. -/
structure Stacked (m : State n E R T Q) : Prop where
  held : StacksHeld m.heldStack m.stackPool
  pointers : ∀ cpu, m.control cpu ≠ .dispatching → m.control cpu ≠ .executing →
    m.pStackPointers cpu = none
  stack : ∀ t, (m.eventTask t).pStackpointer ≠ none → ∃ cpu, m.pActiveEventTask cpu = some t ∧
    (m.control cpu = .executing ∨ m.control cpu = .returned (some t))

structure Good [DecidableEq T] [Fintype T] (strategy : Strategy n O T Q)
    (program : Program O E R) (m : State n E R T Q) (lists : Q → List T) : Prop where
  lined : Lined strategy program m lists
  cycled : Cycled m lists
  stacked : Stacked m

section
variable {m m' : State n E R T Q} {lists : Q → List T} {cpu : Fin n} {c : Control T Q}

theorem State.goto_control_self : (m.goto cpu c).control cpu = c := by simp [State.goto]

theorem State.goto_control_of_ne {cpu' : Fin n} (h : cpu' ≠ cpu) :
    (m.goto cpu c).control cpu' = m.control cpu' := by simp [State.goto, h]

/-- The dispatch loop sets the stack pointer of the CPU, which stops looking for a task. -/
theorem State.activate_eq [DecidableEq T] (m : State n E R T Q) (cpu : Fin n) (task : Option T) :
    ∃ c pStackPointers, m.activate cpu task = { m.goto cpu c with pStackPointers } ∧
      (c = .errorLoop ∨ c = .waiting ∨ c = .executing) := by
  unfold State.activate
  split
  · exact ⟨_, _, rfl, .inl rfl⟩
  · cases task with
    | none => exact ⟨_, _, rfl, .inr (.inl rfl)⟩
    | some event => exact ⟨_, _, rfl, .inr (.inr rfl)⟩

theorem State.activate_control [DecidableEq T] (m : State n E R T Q) (cpu : Fin n)
    (task : Option T) : (m.activate cpu task).control cpu = .errorLoop ∨
      (m.activate cpu task).control cpu = .waiting ∨
      (m.activate cpu task).control cpu = .executing := by
  obtain ⟨c, pStackPointers, heq, hc⟩ := m.activate_eq cpu task
  have hself : (m.activate cpu task).control cpu = c := by
    rw [heq]
    exact State.goto_control_self
  rwa [hself]

section
variable [DecidableEq T] [Fintype T] {strategy : Strategy n O T Q} {program : Program O E R}

theorem Lined.triggered (h : Lined strategy program m lists) {q : Q} {t : T} (ht : t ∈ lists q) :
    (m.trigger program t).isSome := by
  obtain ⟨r, e, hr, -, -⟩ := h.queued q t ht
  simp [State.trigger, hr]

/-- Only the queues, the fields of the queued tasks and the places of the CPUs matter. -/
theorem Lined.frame (h : Lined strategy program m lists) (hlinks : m'.links = m.links)
    (hqueues : m'.queues = m.queues) (hcontrol : m'.control = m.control)
    (htask : ∀ q, ∀ t ∈ lists q, (m'.eventTask t).trigger = (m.eventTask t).trigger ∧
      (m'.eventTask t).event = (m.eventTask t).event) : Lined strategy program m' lists where
  family := by
    rw [hlinks, hqueues]
    exact h.family
  kept q := strategy.kept_congr (fun t ht => by rw [State.trigger, (htask q t ht).1]; rfl) (h.kept q)
  queued q t ht := by
    rw [(htask q t ht).1, (htask q t ht).2]
    exact h.queued q t ht
  scan := by
    rw [hcontrol]
    exact h.scan
  locks := by
    rw [hcontrol]
    exact h.locks

/-- A CPU goes on. If it scans a queue then at a position of its list, and it alone. -/
theorem Lined.goto (h : Lined strategy program m lists)
    (hscan : ∀ q o rest, c = .scanning q o rest → ∃ xs ys, lists q = xs ++ ys ∧ o = ys.head?)
    (hlock : ∀ q, c.heldLock = some q → ∀ cpu' ≠ cpu, (m.control cpu').heldLock ≠ some q) :
    Lined strategy program (m.goto cpu c) lists where
  family := h.family
  kept := h.kept
  queued := h.queued
  scan cpu' q o rest hc := by
    rcases eq_or_ne cpu' cpu with rfl | hne
    · rw [State.goto_control_self] at hc
      exact hscan q o rest hc
    · rw [State.goto_control_of_ne hne] at hc
      exact h.scan cpu' q o rest hc
  locks cpu₁ cpu₂ q h₁ h₂ := by
    rcases eq_or_ne cpu₁ cpu with rfl | hne₁
    · rw [State.goto_control_self] at h₁
      by_contra hne₂
      rw [State.goto_control_of_ne (Ne.symm hne₂)] at h₂
      exact hlock q h₁ cpu₂ (Ne.symm hne₂) h₂
    · rw [State.goto_control_of_ne hne₁] at h₁
      rcases eq_or_ne cpu₂ cpu with rfl | hne₂
      · rw [State.goto_control_self] at h₂
        exact (hlock q h₂ cpu₁ hne₁ h₁).elim
      · rw [State.goto_control_of_ne hne₂] at h₂
        exact h.locks cpu₁ cpu₂ q h₁ h₂

theorem Lined.goto_unlocked (h : Lined strategy program m lists) (hc : c.heldLock = none) :
    Lined strategy program (m.goto cpu c) lists := by
  refine h.goto (fun q o rest e => ?_) fun q e => ?_
  · rw [e] at hc
    cases hc
  · rw [hc] at e
    cases e

end

theorem Cycled.goto (h : Cycled m lists) (hc : c.Agrees (m.pActiveEventTask cpu)) :
    Cycled (m.goto cpu c) lists where
  agrees cpu' := by
    rcases eq_or_ne cpu' cpu with rfl | hne
    · rw [State.goto_control_self]
      exact hc
    · rw [State.goto_control_of_ne hne]
      exact h.agrees cpu'
  active := h.active
  once := h.once

/-- The table and the tasks of the table matter. -/
theorem Cycled.frame {lists' : Q → List T} (h : Cycled m lists)
    (hactive : m'.pActiveEventTask = m.pActiveEventTask) (hcontrol : m'.control = m.control)
    (htask : ∀ cpu t, m.pActiveEventTask cpu = some t →
      (m'.eventTask t).trigger ≠ none ∧ ∀ q, t ∉ lists' q) : Cycled m' lists' where
  agrees := by
    rw [hactive, hcontrol]
    exact h.agrees
  active := by
    rw [hactive]
    exact htask
  once := by
    rw [hactive]
    exact h.once

theorem Control.Stackless.cases (h : c.Stackless) :
    c ≠ .dispatching ∧ c ≠ .executing ∧ ∀ t, c ≠ .returned (some t) := by
  refine ⟨?_, ?_, fun t => ?_⟩ <;> rintro rfl <;> cases h

theorem State.heldStack_of_stackless (h : (m.control cpu).Stackless) :
    m.heldStack cpu = m.pStackPointers cpu := by
  unfold State.heldStack
  split
  · next t e => exact (h.cases.2.2 t e).elim
  · rfl

/-- A CPU without a stack goes on without one. -/
theorem Stacked.move (h : Stacked m) (hold : (m.control cpu).Stackless) (hnew : c.Stackless)
    (hcontrol : m'.control = Function.update m.control cpu c)
    (hactive : ∀ cpu' ≠ cpu, m'.pActiveEventTask cpu' = m.pActiveEventTask cpu')
    (hpointers : m'.pStackPointers = m.pStackPointers) (hpool : m'.stackPool = m.stackPool)
    (htask : ∀ t, (m'.eventTask t).pStackpointer = (m.eventTask t).pStackpointer) :
    Stacked m' where
  held := by
    have hsame : m'.heldStack = m.heldStack := by
      funext cpu'
      rcases eq_or_ne cpu' cpu with rfl | hne
      · have hself : m'.control cpu' = c := by simp [hcontrol]
        rw [State.heldStack_of_stackless hold, State.heldStack_of_stackless (hself ▸ hnew),
          hpointers]
      · simp [State.heldStack, hcontrol, hne, hpointers, htask]
    rw [hsame, hpool]
    exact h.held
  pointers cpu' hd he := by
    rw [hpointers]
    rcases eq_or_ne cpu' cpu with rfl | hne
    · exact h.pointers cpu' hold.cases.1 hold.cases.2.1
    · rw [hcontrol, Function.update_of_ne hne] at hd he
      exact h.pointers cpu' hd he
  stack t ht := by
    rw [htask] at ht
    obtain ⟨cpu', hcpu', hplace⟩ := h.stack t ht
    have hne : cpu' ≠ cpu := by
      rintro rfl
      rcases hplace with e | e
      · exact hold.cases.2.1 e
      · exact hold.cases.2.2 t e
    refine ⟨cpu', (hactive cpu' hne).trans hcpu', ?_⟩
    rw [hcontrol, Function.update_of_ne hne]
    exact hplace

/-- The fields that concern no stack may change. -/
theorem Stacked.frame (h : Stacked m) (hcontrol : m'.control = m.control)
    (hactive : m'.pActiveEventTask = m.pActiveEventTask)
    (hpointers : m'.pStackPointers = m.pStackPointers) (hpool : m'.stackPool = m.stackPool)
    (htask : ∀ t, (m'.eventTask t).pStackpointer = (m.eventTask t).pStackpointer) :
    Stacked m' where
  held := by
    have hsame : m'.heldStack = m.heldStack := by
      funext cpu'
      simp [State.heldStack, hcontrol, hpointers, htask]
    rw [hsame, hpool]
    exact h.held
  pointers := by
    rw [hcontrol, hpointers]
    exact h.pointers
  stack t ht := by
    rw [hactive, hcontrol]
    exact h.stack t (htask t ▸ ht)

/-! ## Steps -/

section
variable [DecidableEq T] [Fintype T] {strategy : Strategy n O T Q} {program : Program O E R}

/-- The task that is active on a CPU, by its place. -/
theorem Good.agrees (h : Good strategy program m lists) (hc : m.control cpu = c) :
    c.Agrees (m.pActiveEventTask cpu) :=
  hc ▸ h.cycled.agrees cpu

theorem Good.triggered_active (h : Good strategy program m lists) (cpu : Fin n) (t : T)
    (ht : m.pActiveEventTask cpu = some t) : (m.trigger program t).isSome := by
  obtain ⟨r, hr⟩ := Option.ne_none_iff_exists'.mp (h.cycled.active cpu t ht).1
  simp [State.trigger, hr]

/-- A CPU that looks for a task goes on. -/
theorem Good.goto (h : Good strategy program m lists) (hold : (m.control cpu).Stackless)
    (hnew : c.Stackless) (hagrees : c.Agrees (m.pActiveEventTask cpu))
    (hscan : ∀ q o rest, c = .scanning q o rest → ∃ xs ys, lists q = xs ++ ys ∧ o = ys.head?)
    (hlock : ∀ q, c.heldLock = some q → ∀ cpu' ≠ cpu, (m.control cpu').heldLock ≠ some q) :
    Good strategy program (m.goto cpu c) lists :=
  ⟨h.lined.goto hscan hlock, h.cycled.goto hagrees,
    h.stacked.move hold hnew rfl (fun _ _ => rfl) rfl rfl fun _ => rfl⟩

theorem Good.goto_unlocked (h : Good strategy program m lists) (hold : (m.control cpu).Stackless)
    (hnew : c.Stackless) (hagrees : c.Agrees (m.pActiveEventTask cpu)) (hc : c.heldLock = none) :
    Good strategy program (m.goto cpu c) lists :=
  ⟨h.lined.goto_unlocked hc, h.cycled.goto hagrees,
    h.stacked.move hold hnew rfl (fun _ _ => rfl) rfl rfl fun _ => rfl⟩

variable [DecidableEq Q]

/-- The lists after one has changed, while nobody scans it. -/
theorem Lined.relist {q : Q} {l : List T} (h : Lined strategy program m lists)
    (hfree : m.Unlocked q) (hfamily : Queue.Family m'.links m'.queues (Function.update lists q l))
    (hcontrol : m'.control = m.control) (htrigger : ∀ t, m'.trigger program t = m.trigger program t)
    (hkept : strategy.Kept (m.trigger program) l)
    (hqueued : ∀ q', ∀ t ∈ Function.update lists q l q', ∃ r e,
      (m'.eventTask t).trigger = some r ∧ (m'.eventTask t).event = some e ∧
      strategy.queueOf (program.trigger r) (program.pType e) = q') :
    Lined strategy program m' (Function.update lists q l) where
  family := hfamily
  kept q' := by
    refine strategy.kept_congr (fun t _ => htrigger t) ?_
    rcases eq_or_ne q' q with rfl | hne
    · rwa [Function.update_self]
    · rw [Function.update_of_ne hne]
      exact h.kept q'
  queued := hqueued
  scan cpu' q' o rest hc := by
    rw [hcontrol] at hc
    have hne : q' ≠ q := by
      rintro rfl
      exact hfree cpu' (by rw [hc]; rfl)
    rw [Function.update_of_ne hne]
    exact h.scan cpu' q' o rest hc
  locks := by
    rw [hcontrol]
    exact h.locks

/-- A task that is in no queue goes into its own, behind all tasks of its trigger. -/
theorem Lined.enqueueEvent {t : T} {r : R} {e : E} (h : Lined strategy program m lists)
    (hr : (m.eventTask t).trigger = some r) (he : (m.eventTask t).event = some e)
    (ht : ∀ q, t ∉ lists q)
    (hfree : m.Unlocked (strategy.queueOf (program.trigger r) (program.pType e))) :
    ∃ links queues xs ys, m.enqueueEvent strategy program t =
        .ok { m.setTask t fun x => { x with pEnqueued := true } with links, queues } ∧
      lists (strategy.queueOf (program.trigger r) (program.pType e)) = xs ++ ys ∧
      (∀ u ∈ ys, (m.eventTask u).trigger ≠ some r) ∧
      Lined strategy program
        { m.setTask t fun x => { x with pEnqueued := true } with links, queues }
        (Function.update lists (strategy.queueOf (program.trigger r) (program.pType e))
          (xs ++ t :: ys)) := by
  set q := strategy.queueOf (program.trigger r) (program.pType e) with hq
  have hfields : ∀ u, ((m.setTask t fun x => { x with pEnqueued := true }).eventTask u).trigger =
      (m.eventTask u).trigger ∧ ((m.setTask t fun x => { x with pEnqueued := true }).eventTask
        u).event = (m.eventTask u).event := by
    intro u
    rcases eq_or_ne u t with rfl | hne
    · simp [State.setTask]
    · simp [State.setTask, hne]
  have htrigger : (m.setTask t fun x => { x with pEnqueued := true }).trigger program =
      m.trigger program := by
    funext u
    rw [State.trigger, (hfields u).1]
    rfl
  have hsome : ∀ u ∈ t :: lists q, (m.trigger program u).isSome := by
    intro u hu
    rcases List.mem_cons.mp hu with rfl | hu
    · simp [State.trigger, hr]
    · exact h.triggered hu
  obtain ⟨k', q', xs, ys, hok, hsplit, hrep, hagree, hkept, hys⟩ :=
    strategy.enqueue_spec (h.family.rep q) (h.kept q) (ht q) hsome
  have hmem : xs ++ t :: ys ⊆ t :: lists q := by
    rw [hsplit]
    exact fun u hu => (List.perm_middle.mem_iff).mp hu
  refine ⟨k', Function.update m.queues q q', xs, ys, ?_, hsplit, fun u hu hur => ?_, ?_⟩
  · simp only [State.enqueueEvent, hr, he, htrigger]
    exact congrArg (· >>= _) hok
  · refine hys u hu ?_
    rw [State.trigger, State.trigger, hur, hr]
  · refine h.relist hfree ?_ rfl (fun u => congrFun htrigger u) hkept fun q₁ u hu => ?_
    · exact h.family.relink_cons (fun j hj => (ht j hj).elim) hrep hmem hagree
    · rw [(hfields u).1, (hfields u).2]
      rcases eq_or_ne q₁ q with rfl | hne
      · rw [Function.update_self] at hu
        rcases List.mem_cons.mp (hmem hu) with rfl | hu
        · exact ⟨r, e, hr, he, hq.symm⟩
        · exact h.queued _ u hu
      · rw [Function.update_of_ne hne] at hu
        exact h.queued q₁ u hu

/-- A task leaves its queue. -/
theorem Lined.dequeue {q : Q} {t : T} {xs ys : List T} (h : Lined strategy program m lists)
    (hfree : m.Unlocked q) (hsplit : lists q = xs ++ t :: ys) :
    Lined strategy program (m.dequeue q t) (Function.update lists q (xs ++ ys)) := by
  have hrep := h.family.rep q
  rw [hsplit] at hrep
  obtain ⟨k', q', hok, hrep', hagree, -⟩ := hrep.removeElementFromList
  have hsub : (xs ++ ys).Sublist (lists q) := by
    rw [hsplit]
    exact (List.Sublist.refl xs).append (List.sublist_cons_self t ys)
  rw [← hsplit] at hagree
  refine h.relist hfree ?_ rfl (fun u => rfl) (strategy.kept_sublist (h.kept q) hsub)
    fun q₁ u hu => ?_
  · have hfam := h.family.relink_self hrep' hsub.subset hagree
    rw [State.dequeue, hok]
    exact hfam
  · rcases eq_or_ne q₁ q with rfl | hne
    · rw [Function.update_self] at hu
      exact h.queued _ u (hsub.subset hu)
    · rw [Function.update_of_ne hne] at hu
      exact h.queued q₁ u hu

omit [DecidableEq Q] in
/-- The tasks of two CPUs differ. -/
theorem Good.ne_of_active (h : Good strategy program m lists) {cpu' : Fin n} {t u : T}
    (ht : m.pActiveEventTask cpu = some t) (hu : m.pActiveEventTask cpu' = some u)
    (hne : cpu' ≠ cpu) : u ≠ t := by
  rintro rfl
  exact hne (h.cycled.once cpu' cpu u hu ht)

theorem Good.enqueueEvent {t : T} {r : R} {e : E} (h : Good strategy program m lists)
    (hpool : (m.eventTask t).trigger = none)
    (hfree : m.Unlocked (strategy.queueOf (program.trigger r) (program.pType e)))
    (hcall : (m.setTask t fun x => { x with event := some e, trigger := some r }).enqueueEvent
      strategy program t = .ok m') :
    ∃ xs ys, lists (strategy.queueOf (program.trigger r) (program.pType e)) = xs ++ ys ∧
      (∀ u ∈ ys, (m.eventTask u).trigger ≠ some r) ∧ (m'.eventTask t).trigger = some r ∧
      (∀ u ≠ t, m'.eventTask u = m.eventTask u) ∧ Good strategy program m' (Function.update lists
        (strategy.queueOf (program.trigger r) (program.pType e)) (xs ++ t :: ys)) ∧
      m'.control = m.control ∧ m'.pActiveEventTask = m.pActiveEventTask := by
  have hout : ∀ q, t ∉ lists q := by
    intro q ht
    obtain ⟨r, -, hr, -⟩ := h.lined.queued q t ht
    rw [hpool] at hr
    cases hr
  have hinactive : ∀ cpu u, m.pActiveEventTask cpu = some u → u ≠ t := by
    rintro cpu u hu rfl
    exact (h.cycled.active cpu u hu).1 hpool
  have hset : Lined strategy program
      (m.setTask t fun x => { x with event := some e, trigger := some r }) lists := by
    refine h.lined.frame rfl rfl rfl fun q u hu => ?_
    have hne : u ≠ t := fun heq => hout q (heq ▸ hu)
    simp [State.setTask, hne]
  obtain ⟨links, queues, xs, ys, hok, hsplit, hys, hlined⟩ :=
    hset.enqueueEvent (r := r) (e := e) (by simp [State.setTask]) (by simp [State.setTask]) hout
      hfree
  cases hcall.symm.trans hok
  refine ⟨xs, ys, hsplit, fun u hu hr => hys u hu ?_, by simp [State.setTask],
    fun u hne => by simp [State.setTask, hne], ⟨hlined, ?_, ?_⟩, rfl, rfl⟩
  · have hne : u ≠ t := fun heq => hout _ (hsplit ▸ List.mem_append_right _ (heq ▸ hu))
    simpa [State.setTask, hne] using hr
  · refine h.cycled.frame rfl rfl fun cpu u hu => ?_
    have hne := hinactive cpu u hu
    refine ⟨by simpa [State.setTask, hne] using (h.cycled.active cpu u hu).1, fun q hq => ?_⟩
    have hold : u ∉ lists q := (h.cycled.active cpu u hu).2 q
    rcases eq_or_ne q (strategy.queueOf (program.trigger r) (program.pType e)) with rfl | hq'
    · rw [Function.update_self] at hq
      rw [hsplit] at hold
      simp only [List.mem_append, List.mem_cons] at hq hold
      tauto
    · rw [Function.update_of_ne hq'] at hq
      exact hold hq
  · refine h.stacked.frame rfl rfl rfl rfl fun u => ?_
    rcases eq_or_ne u t with rfl | hne
    · simp [State.setTask]
    · simp [State.setTask, hne]

omit [DecidableEq Q] in
theorem Good.releaseStack (h : Good strategy program m lists)
    (hcontrol : m.control cpu = .dispatching) :
    Good strategy program ((m.releaseStack cpu).goto cpu .waiting) lists := by
  have hheld : m.heldStack cpu = m.pStackPointers cpu := by simp [State.heldStack, hcontrol]
  have hsame : ∃ pStackPointers stackPool,
      m.releaseStack cpu = { m with pStackPointers, stackPool } ∧
      pStackPointers = Function.update m.pStackPointers cpu none ∧
      StacksHeld (Function.update m.heldStack cpu none) stackPool := by
    unfold State.releaseStack
    cases hsp : m.pStackPointers cpu with
    | none =>
      refine ⟨m.pStackPointers, m.stackPool, rfl, ?_, ?_⟩
      · rw [← hsp, Function.update_eq_self]
      · rw [← hsp, ← hheld, Function.update_eq_self]
        exact h.stacked.held
    | some sp => exact ⟨_, _, rfl, rfl, h.stacked.held.release (hheld.trans hsp)⟩
  obtain ⟨pStackPointers, stackPool, hrelease, hpointers, hheld'⟩ := hsame
  rw [hrelease]
  have hnew : ({ m with pStackPointers, stackPool }.goto cpu .waiting).heldStack =
      Function.update m.heldStack cpu none := by
    funext cpu'
    rcases eq_or_ne cpu' cpu with rfl | hne
    · simp [State.heldStack, State.goto, hpointers]
    · simp [State.heldStack, State.goto, hpointers, hne]
  have hlined : Lined strategy program (m.goto cpu .waiting) lists := h.lined.goto_unlocked rfl
  have hnone : m.pActiveEventTask cpu = none := h.agrees hcontrol
  have hcycled : Cycled (m.goto cpu .waiting) lists := h.cycled.goto hnone
  refine ⟨hlined.frame rfl rfl rfl fun _ _ _ => ⟨rfl, rfl⟩,
    hcycled.frame rfl rfl hcycled.active, ⟨?_, fun cpu' hd he => ?_, fun t ht => ?_⟩⟩
  · rw [hnew]
    exact hheld'
  · rcases eq_or_ne cpu' cpu with rfl | hne
    · simp [State.goto, hpointers]
    · rw [State.goto_control_of_ne hne] at hd he
      simpa [State.goto, hpointers, hne] using h.stacked.pointers cpu' hd he
  · obtain ⟨cpu', hactive, hplace⟩ := h.stacked.stack t ht
    have hne : cpu' ≠ cpu := by
      rintro rfl
      simp [hcontrol] at hplace
    exact ⟨cpu', hactive, by simpa [State.goto, hne] using hplace⟩

/-- A task that is locked leaves its queue and becomes active. -/
theorem Good.locked [DecidableEq O] {q : Q} {t : T} {rest : List Q} {active : Fin n → Option T}
    (h : Good strategy program m lists) (hcontrol : m.control cpu = .scanning q (some t) rest)
    (hcall : tryTaskLock (m.trigger program) m.pActiveEventTask cpu t = .ok (true, active)) :
    ∃ xs ys, lists q = xs ++ t :: ys ∧ Good strategy program
      ({ m.dequeue q t with pActiveEventTask := active }.goto cpu (.dequeued t))
      (Function.update lists q (xs ++ ys)) := by
  obtain ⟨xs, zs, hsplit, hhead⟩ := h.lined.scan cpu q _ rest hcontrol
  obtain ⟨ys, rfl⟩ := List.head?_eq_some_iff.mp hhead.symm
  have hactive : active = Function.update m.pActiveEventTask cpu (some t) := by
    simpa using (tryTaskLock_cases hcall).2
  subst hactive
  have hnodup := (h.lined.family.rep q).nodup
  rw [hsplit] at hnodup
  have hout : t ∉ xs ++ ys :=
    (List.nodup_cons.mp ((List.perm_middle.nodup_iff).mp hnodup)).1
  have hin : t ∈ lists q := by simp [hsplit]
  have hsub : xs ++ ys ⊆ lists q := by
    rw [hsplit]
    intro u hu
    simp only [List.mem_append, List.mem_cons] at hu ⊢
    tauto
  have hqueued : (m.eventTask t).trigger ≠ none := by
    obtain ⟨r, e, hr, -⟩ := h.lined.queued q t hin
    simp [hr]
  have hinactive : ∀ cpu', m.pActiveEventTask cpu' ≠ some t := fun cpu' ht =>
    (h.cycled.active cpu' t ht).2 q hin
  have hleft : ∀ u q', u ∉ lists q' → u ∉ Function.update lists q (xs ++ ys) q' := by
    intro u q' hu
    rcases eq_or_ne q' q with rfl | hne
    · rw [Function.update_self]
      exact fun hmem => hu (hsub hmem)
    · rwa [Function.update_of_ne hne]
  have hfree : (m.goto cpu (.dequeued t)).Unlocked q := by
    intro cpu' hlock
    rcases eq_or_ne cpu' cpu with rfl | hne
    · rw [State.goto_control_self] at hlock
      cases hlock
    · rw [State.goto_control_of_ne hne] at hlock
      exact hne (h.lined.locks cpu' cpu q hlock (by rw [hcontrol]; rfl))
  have hgone : Lined strategy program (m.goto cpu (.dequeued t)) lists :=
    h.lined.goto_unlocked rfl
  have hlined := hgone.dequeue hfree hsplit
  have hold : (m.control cpu).Stackless := by
    rw [hcontrol]
    trivial
  refine ⟨xs, ys, hsplit, hlined.frame rfl rfl rfl fun _ _ _ => ⟨rfl, rfl⟩,
    ⟨fun cpu' => ?_, fun cpu' u hu => ?_, fun c c' u hc hc' => ?_⟩,
    h.stacked.move (c := .dequeued t) hold trivial rfl
      (fun cpu' hne => by simp [State.goto, hne]) rfl rfl fun _ => rfl⟩
  · rcases eq_or_ne cpu' cpu with rfl | hne
    · simp [State.goto, Control.Agrees]
    · simpa [State.goto, State.dequeue, hne] using h.cycled.agrees cpu'
  · rcases eq_or_ne cpu' cpu with rfl | hne
    · obtain rfl : t = u := by simpa [State.goto] using hu
      refine ⟨hqueued, fun q' hq' => ?_⟩
      rcases eq_or_ne q' q with rfl | hne
      · exact hout (by simpa using hq')
      · rw [Function.update_of_ne hne] at hq'
        exact hne (h.lined.family.disjoint q' q t hq' hin)
    · have hold : m.pActiveEventTask cpu' = some u := by simpa [State.goto, hne] using hu
      exact ⟨(h.cycled.active cpu' u hold).1, fun q' => hleft u q'
        ((h.cycled.active cpu' u hold).2 q')⟩
  · have hother : ∀ {c}, c ≠ cpu → Function.update m.pActiveEventTask cpu (some t) c = some u →
        m.pActiveEventTask c = some u := fun hne hc => by simpa [hne] using hc
    rcases eq_or_ne c cpu with rfl | hne <;> rcases eq_or_ne c' c with rfl | hne'
    · rfl
    · obtain rfl : t = u := by simpa [State.goto] using hc
      exact (hinactive c' (hother hne' hc')).elim
    · rfl
    · rcases eq_or_ne c' cpu with rfl | hne''
      · obtain rfl : t = u := by simpa [State.goto] using hc'
        exact (hinactive c (hother hne hc)).elim
      · exact h.cycled.once c c' u (hother hne hc) (hother hne'' hc')

omit [DecidableEq Q] in
/-- A CPU that has dequeued a task finds a stack for it, one that nobody holds. -/
theorem Good.exists_stack {t : T} (h : Good strategy program m lists)
    (hcontrol : m.control cpu = .dequeued t) : (m.eventTask t).pStackpointer = none ∧
      ∃ sp stackPool, m.stackPool.getFreeStack n = .ok (some sp, stackPool) ∧
        (∀ cpu', m.heldStack cpu' ≠ some sp) ∧
        StacksHeld (Function.update m.heldStack cpu (some sp)) stackPool := by
  have hactive : m.pActiveEventTask cpu = some t := h.agrees hcontrol
  have hnone : m.heldStack cpu = none := by
    have hpointers := h.stacked.pointers cpu (by simp [hcontrol]) (by simp [hcontrol])
    simpa [State.heldStack, hcontrol] using hpointers
  have hn : 0 < n := Nat.lt_of_le_of_lt (Nat.zero_le _) cpu.isLt
  obtain ⟨i, hi, hfree, hget⟩ := StackPool.getFreeStack_spec (h.stacked.held.pointer hn)
    (h.stacked.held.exists_free hnone)
  refine ⟨?_, i, _, hget, fun cpu' hheld => ?_, h.stacked.held.hold hnone hi hfree⟩
  · by_contra hne
    obtain ⟨cpu', hcpu', hplace⟩ := h.stacked.stack t hne
    cases h.cycled.once cpu' cpu t hcpu' hactive
    simp [hcontrol] at hplace
  · have hused := (h.stacked.held.used_iff i hi).mpr ⟨cpu', hheld⟩
    rw [hfree] at hused
    cases hused

omit [DecidableEq Q] in
theorem Good.provideStack {t : T} (h : Good strategy program m lists)
    (hcontrol : m.control cpu = .dequeued t) : ∃ sp stackPool,
      m.stackPool.provideStack n (m.eventTask t).pStackpointer = .ok (some sp, stackPool) ∧
      StacksHeld (Function.update m.heldStack cpu (some sp)) stackPool := by
  obtain ⟨hnone, sp, stackPool, hget, -, hheld⟩ := h.exists_stack hcontrol
  rw [hnone]
  exact ⟨sp, stackPool, hget, hheld⟩

omit [DecidableEq Q] in
theorem Good.getFreeStack {t : T} {sp : Nat} {stackPool : StackPool}
    (h : Good strategy program m lists) (hcontrol : m.control cpu = .dequeued t)
    (hcall : m.stackPool.provideStack n (m.eventTask t).pStackpointer = .ok (some sp, stackPool)) :
    Good strategy program
      ({ m.setTask t fun x => { x with pStackpointer := some sp, pEnqueued := false } with
        stackPool }.goto cpu (.returned (some t))) lists := by
  obtain ⟨sp', stackPool', hcall', hheld⟩ := h.provideStack hcontrol
  cases hcall.symm.trans hcall'
  have hactive : m.pActiveEventTask cpu = some t := h.agrees hcontrol
  have hfields : ∀ u, ((m.setTask t fun x => { x with pStackpointer := some sp, pEnqueued :=
      false }).eventTask u).trigger = (m.eventTask u).trigger ∧ ((m.setTask t fun x => { x with
        pStackpointer := some sp, pEnqueued := false }).eventTask u).event =
          (m.eventTask u).event := by
    intro u
    rcases eq_or_ne u t with rfl | hne
    · simp [State.setTask]
    · simp [State.setTask, hne]
  have hlined : Lined strategy program (m.goto cpu (.returned (some t))) lists :=
    h.lined.goto_unlocked rfl
  have hcycled : Cycled (m.goto cpu (.returned (some t))) lists := h.cycled.goto hactive
  refine ⟨hlined.frame rfl rfl rfl fun _ u _ => hfields u, hcycled.frame rfl rfl fun cpu' u hu => ?_,
    ⟨?_, fun cpu' hd he => ?_, fun u hu => ?_⟩⟩
  · refine ⟨fun hnone => (hcycled.active cpu' u hu).1 ?_, (hcycled.active cpu' u hu).2⟩
    exact ((hfields u).1).symm.trans hnone
  · refine Eq.mp (congrArg (StacksHeld · stackPool) ?_) hheld
    funext cpu'
    rcases eq_or_ne cpu' cpu with rfl | hne
    · simp [State.heldStack, State.goto, State.setTask]
    · simp only [State.heldStack, State.goto, State.setTask, Function.update_of_ne hne]
      split
      · next u hreturned =>
        have hu : m.pActiveEventTask cpu' = some u := h.agrees hreturned
        rw [Function.update_of_ne (h.ne_of_active hactive hu hne)]
      · rfl
  · rcases eq_or_ne cpu' cpu with rfl | hne
    · exact h.stacked.pointers cpu' (by simp [hcontrol]) (by simp [hcontrol])
    · rw [State.goto_control_of_ne hne] at hd he
      exact h.stacked.pointers cpu' hd he
  · rcases eq_or_ne u t with rfl | hne
    · exact ⟨cpu, hactive, .inr State.goto_control_self⟩
    · have hold : (m.eventTask u).pStackpointer ≠ none := by
        simpa [State.goto, State.setTask, hne] using hu
      obtain ⟨cpu', hcpu', hplace⟩ := h.stacked.stack u hold
      have hother : cpu' ≠ cpu := by
        rintro rfl
        simp [hcontrol] at hplace
      exact ⟨cpu', hcpu', by simpa [State.goto, State.setTask, hother] using hplace⟩

omit [DecidableEq Q] in
/-- The task that `getEvent` returns is the one that the CPU has locked. -/
theorem Good.activate {task : Option T} (h : Good strategy program m lists)
    (hcontrol : m.control cpu = .returned task) :
    Good strategy program (m.activate cpu task) lists := by
  have hactive : m.pActiveEventTask cpu = task := h.agrees hcontrol
  unfold State.activate
  rw [if_neg (by simp [hactive])]
  cases task with
  | none => exact h.goto_unlocked (by rw [hcontrol]; trivial) trivial hactive rfl
  | some t =>
    have hlined : Lined strategy program (m.goto cpu .executing) lists :=
      h.lined.goto_unlocked rfl
    have hexecuting : m.pActiveEventTask cpu ≠ none := by simp [hactive]
    have hcycled : Cycled (m.goto cpu .executing) lists := h.cycled.goto hexecuting
    refine ⟨hlined.frame rfl rfl rfl fun _ _ _ => ⟨rfl, rfl⟩,
      hcycled.frame rfl rfl hcycled.active, ⟨?_, fun cpu' hd he => ?_, fun u hu => ?_⟩⟩
    · refine Eq.mp (congrArg (StacksHeld · m.stackPool) ?_) h.stacked.held
      funext cpu'
      rcases eq_or_ne cpu' cpu with rfl | hne
      · simp [State.heldStack, State.goto, hcontrol]
      · simp [State.heldStack, State.goto, hne]
    · rcases eq_or_ne cpu' cpu with rfl | hne
      · exact (he State.goto_control_self).elim
      · rw [State.goto_control_of_ne hne] at hd he
        simpa [State.goto, hne] using h.stacked.pointers cpu' hd he
    · obtain ⟨cpu', hcpu', hplace⟩ := h.stacked.stack u hu
      refine ⟨cpu', hcpu', ?_⟩
      rcases eq_or_ne cpu' cpu with rfl | hne
      · exact .inl State.goto_control_self
      · simpa [State.goto, hne] using hplace

omit [DecidableEq Q] in
theorem Good.eventTaskFinished {t : T} (h : Good strategy program m lists)
    (hcontrol : m.control cpu = .executing) (hactive : m.pActiveEventTask cpu = some t) :
    Good strategy program ((m.eventTaskFinished cpu t).goto cpu .dispatching) lists := by
  have hout := (h.cycled.active cpu t hactive).2
  have hsame : ∀ u ≠ t, (m.eventTaskFinished cpu t).eventTask u = m.eventTask u := fun u hne => by
    simp [State.eventTaskFinished, State.setTask, hne]
  have hother : ∀ {cpu' u}, ((m.eventTaskFinished cpu t).pActiveEventTask cpu' = some u) →
      cpu' ≠ cpu ∧ m.pActiveEventTask cpu' = some u ∧ u ≠ t := by
    intro cpu' u hu
    rcases eq_or_ne cpu' cpu with rfl | hne
    · simp [State.eventTaskFinished, unlockTask] at hu
    · have hold : m.pActiveEventTask cpu' = some u := by
        simpa [State.eventTaskFinished, unlockTask, State.setTask, hne] using hu
      exact ⟨hne, hold, h.ne_of_active hactive hold hne⟩
  have hlined : Lined strategy program (m.goto cpu .dispatching) lists :=
    h.lined.goto_unlocked rfl
  refine ⟨hlined.frame rfl rfl rfl fun q u hu => ?_,
    ⟨fun cpu' => ?_, fun cpu' u hu => ?_, fun c c' u hc hc' => ?_⟩,
    ⟨?_, fun cpu' hd he => ?_, fun u hu => ?_⟩⟩
  · have hne : u ≠ t := fun heq => hout q (heq ▸ hu)
    exact ⟨congrArg _ (hsame u hne), congrArg _ (hsame u hne)⟩
  · rcases eq_or_ne cpu' cpu with rfl | hne
    · simp [State.goto, State.eventTaskFinished, unlockTask, Control.Agrees]
    · simpa [State.goto, State.eventTaskFinished, unlockTask, State.setTask, hne] using
        h.cycled.agrees cpu'
  · obtain ⟨-, hold, hne⟩ := hother hu
    refine ⟨?_, (h.cycled.active cpu' u hold).2⟩
    have htrigger := (h.cycled.active cpu' u hold).1
    rwa [← hsame u hne] at htrigger
  · exact h.cycled.once c c' u (hother hc).2.1 (hother hc').2.1
  · refine Eq.mp (congrArg (StacksHeld · m.stackPool) ?_) h.stacked.held
    funext cpu'
    rcases eq_or_ne cpu' cpu with rfl | hne
    · simp [State.heldStack, State.goto, State.eventTaskFinished, State.setTask, hcontrol]
    · simp only [State.heldStack, State.goto_control_of_ne hne]
      have hcontrol' : (m.eventTaskFinished cpu t).control cpu' = m.control cpu' := rfl
      rw [hcontrol']
      split
      · next u hreturned =>
        have hu : m.pActiveEventTask cpu' = some u := h.agrees hreturned
        exact (congrArg _ (hsame u (h.ne_of_active hactive hu hne))).symm
      · rfl
  · rcases eq_or_ne cpu' cpu with rfl | hne
    · exact (hd State.goto_control_self).elim
    · rw [State.goto_control_of_ne hne] at hd he
      exact h.stacked.pointers cpu' hd he
  · have hne : u ≠ t := by
      rintro rfl
      simp [State.goto, State.eventTaskFinished, State.setTask] at hu
    have hold : (m.eventTask u).pStackpointer ≠ none := by rwa [← hsame u hne]
    obtain ⟨cpu', hcpu', hplace⟩ := h.stacked.stack u hold
    have hcpu : cpu' ≠ cpu := by
      rintro rfl
      rw [hactive] at hcpu'
      exact hne (Option.some.inj hcpu').symm
    refine ⟨cpu', ?_, ?_⟩
    · simpa [State.goto, State.eventTaskFinished, unlockTask, State.setTask, hcpu] using hcpu'
    · rw [State.goto_control_of_ne hcpu]
      exact hplace

/-- What a step does to the lists. -/
def Moved (strategy : Strategy n O T Q) (program : Program O E R) (m : State n E R T Q)
    (lists lists' : Q → List T) : Label n E R T Q → Prop
  | .enqueueEvent t e r =>
    ∃ xs ys, lists (strategy.queueOf (program.trigger r) (program.pType e)) = xs ++ ys ∧
      (∀ u ∈ ys, (m.eventTask u).trigger ≠ some r) ∧
      lists' = Function.update lists (strategy.queueOf (program.trigger r) (program.pType e))
        (xs ++ t :: ys)
  | .locked _ q t r =>
    ∃ xs ys, lists q = xs ++ t :: ys ∧ lists' = Function.update lists q (xs ++ ys) ∧
      (m.eventTask t).trigger = some r
  | _ => lists' = lists

variable [DecidableEq O] {l : Label n E R T Q}

theorem Good.step (h : Good strategy program m lists) (hstep : Step strategy program m l m') :
    ∃ lists', Good strategy program m' lists' ∧ Moved strategy program m lists lists' l := by
  cases hstep with
  | enqueueEvent hpool hfree hcall =>
    obtain ⟨xs, ys, hsplit, hys, -, -, hgood, -⟩ := h.enqueueEvent hpool hfree hcall
    exact ⟨_, hgood, xs, ys, hsplit, hys, rfl⟩
  | releaseStack hcontrol => exact ⟨lists, h.releaseStack hcontrol, rfl⟩
  | getEvent hcontrol =>
    have hnone : m.pActiveEventTask _ = none := h.agrees hcontrol
    exact ⟨lists, h.goto_unlocked (by rw [hcontrol]; trivial) trivial hnone rfl, rfl⟩
  | @lockQueue cpu q rest hcontrol hfree =>
    have hnone : m.pActiveEventTask cpu = none := h.agrees hcontrol
    refine ⟨lists, h.goto (by rw [hcontrol]; trivial) trivial hnone (fun q' o rest' e => ?_)
      fun q' e cpu' _ => ?_, rfl⟩
    · cases e
      exact ⟨[], lists q, rfl, (h.lined.family.rep q).head⟩
    · cases e
      exact hfree cpu'
  | @refused cpu q t rest o hcontrol hcall hnext =>
    have hnone : m.pActiveEventTask cpu = none := h.agrees hcontrol
    obtain ⟨xs, zs, hsplit, hhead⟩ := h.lined.scan cpu q _ rest hcontrol
    obtain ⟨ys, rfl⟩ := List.head?_eq_some_iff.mp hhead.symm
    have hrep := h.lined.family.rep q
    have htriggered : ∀ u ∈ lists q, (m.trigger program u).isSome := fun u hu =>
      h.lined.triggered hu
    rw [hsplit] at hrep htriggered
    obtain ⟨zs, ws, rfl, hnext'⟩ := strategy.next_spec hrep htriggered
    cases hnext.symm.trans hnext'
    refine ⟨lists, h.goto (by rw [hcontrol]; trivial) trivial hnone (fun q' o rest' e => ?_)
      fun q' e cpu' hne hlock => ?_, rfl⟩
    · cases e
      exact ⟨xs ++ t :: zs, ws, by simp [hsplit], rfl⟩
    · exact hne (h.lined.locks cpu' cpu q' hlock (by rw [hcontrol]; exact e))
  | locked hcontrol hcall htrigger =>
    obtain ⟨xs, ys, hsplit, hgood⟩ := h.locked hcontrol hcall
    exact ⟨_, hgood, xs, ys, hsplit, rfl, htrigger⟩
  | unlockQueue hcontrol =>
    have hnone : m.pActiveEventTask _ = none := h.agrees hcontrol
    exact ⟨lists, h.goto_unlocked (by rw [hcontrol]; trivial) trivial hnone rfl, rfl⟩
  | noEvent hcontrol =>
    have hnone : m.pActiveEventTask _ = none := h.agrees hcontrol
    exact ⟨lists, h.goto_unlocked (by rw [hcontrol]; trivial) trivial hnone rfl, rfl⟩
  | getFreeStack hcontrol hcall => exact ⟨lists, h.getFreeStack hcontrol hcall, rfl⟩
  | noStack hcontrol hcall =>
    obtain ⟨sp, stackPool, hcall', -⟩ := h.provideStack hcontrol
    cases hcall.symm.trans hcall'
  | requeue hcontrol => exact (h.agrees hcontrol).elim
  | activate hcontrol => exact ⟨lists, h.activate hcontrol, rfl⟩
  | eventTaskFinished hcontrol hactive =>
    exact ⟨lists, h.eventTaskFinished hcontrol hactive, rfl⟩

omit [DecidableEq O] [DecidableEq Q] in
theorem Good.initial : Good strategy program (State.initial : State n E R T Q) fun _ => [] where
  lined := {
    family := ⟨fun _ => Queue.Rep.new _, fun _ _ _ ht => by cases ht⟩
    kept := fun _ => strategy.kept_nil _
    queued := fun _ _ ht => by cases ht
    scan := fun _ _ _ _ hc => by cases hc
    locks := fun _ _ _ hc => by cases hc }
  cycled := {
    agrees := fun _ => rfl
    active := fun _ _ ht => by cases ht
    once := fun _ _ _ ht => by cases ht }
  stacked := {
    held := ⟨id, by simp [State.initial, StackPool.new, State.heldStack],
      by simp [State.initial, State.heldStack], by simp [State.initial, State.heldStack]⟩
    pointers := fun _ _ _ => rfl
    stack := fun _ ht => (ht rfl).elim }

theorem Good.run {ls : List (Label n E R T Q)}
    (hrun : Run (Step strategy program) State.initial ls m) :
    ∃ lists, Good strategy program m lists := by
  refine hrun.invariant (motive := fun m => ∃ lists, Good strategy program m lists)
    ⟨_, Good.initial⟩ ?_
  intro m l m' ⟨lists, h⟩ hstep
  obtain ⟨lists', h', -⟩ := h.step hstep
  exact ⟨lists', h'⟩

/-- Over every interleaving of the CPUs: no stack is held by two of them, a CPU that has dequeued a
task gets a stack that nobody holds, `getEvent` returns the task that the CPU has locked, and the
loop for a task that is not locked is never entered. -/
theorem dispatcher_stacks {strategy : Strategy n O T Q} {ls : List (Label n E R T Q)}
    (hrun : Run (Step strategy program) State.initial ls m) :
    (∀ cpu cpu' sp, m.heldStack cpu = some sp → m.heldStack cpu' = some sp → cpu = cpu') ∧
      (∀ cpu t, m.control cpu = .dequeued t → (m.eventTask t).pStackpointer = none ∧
        ∃ sp stackPool, m.stackPool.getFreeStack n = .ok (some sp, stackPool) ∧
          ∀ cpu', m.heldStack cpu' ≠ some sp) ∧
      (∀ cpu task, m.control cpu = .returned task → task = m.pActiveEventTask cpu) ∧
      ∀ cpu, m.control cpu ≠ .errorLoop := by
  obtain ⟨lists, h⟩ := Good.run hrun
  refine ⟨h.stacked.held.distinct, fun cpu t hcontrol => ?_, fun cpu task hcontrol => ?_,
    fun cpu hcontrol => h.agrees hcontrol⟩
  · obtain ⟨hnone, sp, stackPool, hget, hheld, -⟩ := h.exists_stack hcontrol
    exact ⟨hnone, sp, stackPool, hget, hheld⟩
  · exact (h.agrees hcontrol).symm

end

end

/-- A task of the trigger is put into the queue of all CPUs, and one of two CPUs locks it. -/
theorem dispatcher_stacks_oneTrigger : ∃ m : State 2 Bool Unit (Fin 2) (Fin 3),
    Run (Step multiQueuePriorityStrategy oneTrigger) State.initial
      [.enqueueEvent 0 true (), .releaseStack 0, .getEvent 0, .lockQueue 0, .unlockQueue 0,
        .lockQueue 0, .locked 0 2 0 ()] m ∧
      m.control 0 = .dequeued 0 ∧
      (∀ cpu cpu' sp, m.heldStack cpu = some sp → m.heldStack cpu' = some sp → cpu = cpu') ∧
      (∀ cpu t, m.control cpu = .dequeued t → (m.eventTask t).pStackpointer = none ∧
        ∃ sp stackPool, m.stackPool.getFreeStack 2 = .ok (some sp, stackPool) ∧
          ∀ cpu', m.heldStack cpu' ≠ some sp) ∧
      (∀ cpu task, m.control cpu = .returned task → task = m.pActiveEventTask cpu) ∧
      ∀ cpu, m.control cpu ≠ .errorLoop := by
  have hafter : (([.enqueueEvent 0 true (), .releaseStack 0, .getEvent 0, .lockQueue 0,
      .unlockQueue 0, .lockQueue 0, .locked 0 2 0 ()] : List (Label 2 Bool Unit (Fin 2)
        (Fin 3))).foldlM (State.after multiQueuePriorityStrategy oneTrigger) State.initial).any
          fun m => m.control 0 = .dequeued 0 := by decide +kernel
  obtain ⟨m, hm, hcontrol⟩ := (Option.any_eq_true _ _).mp hafter
  have hrun := run_of_afterAll hm
  exact ⟨m, hrun, of_decide_eq_true hcontrol, dispatcher_stacks hrun⟩

end Dispatcher

end CyPhOS
