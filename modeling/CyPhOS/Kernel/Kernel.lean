import CyPhOS.Driver.TimerRuns
import CyPhOS.EventHandling.Conservation

/-! # The kernel

The event handler and the software timer together. They share the triggers and the subscriber lists:
an event is an event of a component, an interrupt of the dispatcher, or an event of the timer, and a
trigger has one pair of links, whichever list it is in.

`KernelStep` is one call. The calls of the event handler that leave the subscriber lists alone are
those of `SchedulerStep`, and the calls that set and cancel timer events those of `GenericTimer.Step`.
A tick raises what the timer fires, and the end of a task gives a oneshot event back to the timer.
Whatever is subscribed, the tasks and the stacks stay in order (`Works.proceeds`).
-/

namespace CyPhOS

/-- The events there are: those of components, `pInterrupts` of the dispatcher, and
`mTimerConnections` of the timer. -/
inductive Event (m : Nat) (S : Type)
  | event (e : S)
  | pInterrupts (nr : Fin m)
  | mTimerConnections (e : TimerEvent)
  deriving DecidableEq

theorem dummyCallEvent_ne_timerEvent : EventType.dummyCallEvent ≠ .timerEvent := by simp

/-- What does not change while the system runs. -/
structure Configuration (O S R : Type) where
  trigger : R → Trigger O
  pType : S → EventType
  pType_ne : ∀ e, pType e ≠ .timerEvent
  pDummyEvent : S
  pDummyEvent_pType : pType pDummyEvent = .dummyCallEvent

variable {n m : Nat} {O S R : Type}

/-- The constructor of the timer sets the type of the oneshot events only. -/
def Event.pType (c : Configuration O S R) : Event m S → EventType
  | .event e => c.pType e
  | .pInterrupts _ => .interruptEvent
  | .mTimerConnections e => if e.val < cTimerPoolSize then .timerEvent else .softwareEvent

/-- As the event handler sees it. The type of a timer event is a field of the timer; the calls of
`SchedulerStep` that the kernel uses do not read it. -/
def Configuration.program (c : Configuration O S R) : Program O (Event m S) R where
  trigger := c.trigger
  pType := Event.pType c
  mTimerEventType _ := .periodic
  pDummyEvent := .event c.pDummyEvent
  pDummyEvent_pType := c.pDummyEvent_pType

structure Kernel (n m : Nat) (S R : Type) where
  tasks : Tasks n (Event m S) R
  pStackPointers : Fin n → Option Nat
  stackPool : StackPool
  phase : Fin n → Phase
  mSubscribers : S → Queue R
  pInterrupts : Fin m → Queue R
  timer : GenericTimer R

namespace Kernel

/-! ## Subscriber lists -/

/-- `event->mSubscribers`. -/
def subscribers (k : Kernel n m S R) : Event m S → Queue R
  | .event e => k.mSubscribers e
  | .pInterrupts nr => k.pInterrupts nr
  | .mTimerConnections e => k.timer.mSubscribers e

/-- Put back a subscriber list that an operation has changed. -/
def setSubscribers [DecidableEq S] (k : Kernel n m S R) (event : Event m S)
    (triggerLinks : QueueElements R) (queue : Queue R) : Kernel n m S R :=
  let k := { k with timer := { k.timer with triggerLinks } }
  match event with
  | .event e => { k with mSubscribers := Function.update k.mSubscribers e queue }
  | .pInterrupts nr => { k with pInterrupts := Function.update k.pInterrupts nr queue }
  | .mTimerConnections e => { k with timer := { k.timer with
      mSubscribers := Function.update k.timer.mSubscribers e queue } }

section
variable [DecidableEq S] (k : Kernel n m S R) (event : Event m S) (links : QueueElements R)
  (queue : Queue R)

@[simp] theorem subscribers_setSubscribers :
    (k.setSubscribers event links queue).subscribers =
      Function.update k.subscribers event queue := by
  funext e
  cases event <;> cases e <;> simp [setSubscribers, subscribers, Function.update_apply]

@[simp] theorem triggerLinks_setSubscribers :
    (k.setSubscribers event links queue).timer.triggerLinks = links := by
  cases event <;> rfl

end

/-! ## The parts -/

/-- The links of the timer events, among the links of all events. -/
def eventLinks (k : QueueElements TimerEvent) : QueueElements (Event m S) where
  pNext
    | .mTimerConnections e => (k.pNext e).map .mTimerConnections
    | _ => none
  pPrevious
    | .mTimerConnections e => (k.pPrevious e).map .mTimerConnections
    | _ => none

/-- The part that the event handler works on. -/
def machine (k : Kernel n m S R) : Machine n (Event m S) R where
  system := {
    tasks := k.tasks
    subscriptions := {
      triggerLinks := k.timer.triggerLinks
      mSubscribers := k.subscribers
      timerEventLinks := eventLinks k.timer.timerEventLinks
      mOneshotEventPool :=
        let pool := k.timer.queues .mOneshotEventPool
        { pHead := pool.pHead.map .mTimerConnections, pTail := pool.pTail.map .mTimerConnections,
          pSize := pool.pSize } }
    pStackPointers := k.pStackPointers
    stackPool := k.stackPool }
  phase := k.phase

/-- Put back what the event handler has changed besides subscriber lists. -/
def withMachine (k : Kernel n m S R) (a : Machine n (Event m S) R) : Kernel n m S R :=
  { k with
    tasks := a.system.tasks
    pStackPointers := a.system.pStackPointers
    stackPool := a.system.stackPool
    phase := a.phase }

/-! ## The calls -/

section
variable [DecidableEq S] [DecidableEq R] [Fintype R]

def subscribeEvent (k : Kernel n m S R) (event : Event m S) (trigger : R) :
    Exec (Kernel n m S R) := do
  let (triggerLinks, queue) ← (k.subscribers event).enqueue k.timer.triggerLinks trigger
  pure (k.setSubscribers event triggerLinks queue)

def unsubscribeEvent (k : Kernel n m S R) (event : Event m S) (trigger : R) :
    Exec (Kernel n m S R) := do
  let (triggerLinks, queue) ← (k.subscribers event).remove k.timer.triggerLinks trigger
  pure (k.setSubscribers event triggerLinks queue)

omit [DecidableEq S] [DecidableEq R] in
/-- The events that fire in a tick are raised one after the other. -/
def raiseAll (c : Configuration O S R) : List TimerEvent → Kernel n m S R → Exec (Kernel n m S R)
  | [], k => .ok k
  | event :: events, k => do
    let s ← k.machine.system.eventTriggered c.program (.mTimerConnections event) 0
    raiseAll c events { k with tasks := s.tasks }

omit [DecidableEq S] [DecidableEq R] [Fintype R] in
/-- The test of `eventTaskFinished` for a oneshot event of the timer. -/
def asOneshot (c : Configuration O S R) (k : Kernel n m S R) (event : Event m S) :
    Option TimerEvent :=
  match event with
  | .mTimerConnections e =>
    if event.pType c = .timerEvent ∧ k.timer.mTimerEventType e = .oneshot then some e else none
  | _ => none

omit [DecidableEq S] in
/-- `eventTaskFinished`, without the cache; also says which event went back to the timer. -/
def eventTaskFinished (c : Configuration O S R) (k : Kernel n m S R) (cpu : Fin n) :
    Exec (Option TimerEvent × Kernel n m S R) := do
  match k.tasks.pActiveEventTask cpu with
  | none => .error .nullDereference
  | some eventtask =>
    let tasks := k.tasks.finish cpu eventtask
    match (tasks.eventTask eventtask).event with
    | none => .error .nullDereference
    | some event =>
      if event.pType c = .interruptEvent then
        pure (none, { k with tasks := ← tasks.requeueInterruptEventTask eventtask })
      else
        match k.asOneshot c event with
        | some e =>
          let timer ← k.timer.returnOneshotEventToPool e
          pure (some e, { k with tasks := ← tasks.requeueEventTask eventtask, timer })
        | none => pure (none, { k with tasks := ← tasks.requeueEventTask eventtask })

end

/-- The constructors, in zeroed storage. -/
def boot (mTimerInterval : Nat) : Exec (Kernel n m S R) := do
  let timer ← GenericTimer.new mTimerInterval
  let system ← System.boot (R := R)
    { triggerLinks := QueueElements.zeroed, mSubscribers := fun _ => Queue.new,
      timerEventLinks := QueueElements.zeroed, mOneshotEventPool := Queue.new }
  pure {
    tasks := system.tasks
    pStackPointers := system.pStackPointers
    stackPool := system.stackPool
    phase := fun _ => .dispatching
    mSubscribers := fun _ => Queue.new
    pInterrupts := fun _ => Queue.new
    timer }

end Kernel

/-! ## Steps -/

/-- A call of the event handler that changes no subscriber list and ends no task. -/
def SchedulerOp.KeepsSubscriptions {n : Nat} {E R : Type} : SchedulerOp n E R → Prop
  | .releaseStack _ | .dispatchEvent _ | .eventTriggered _ _ | .interruptEventTriggered _ _
  | .callOSCTrigger _ _ => True
  | _ => False

/-- A call that sets or cancels an event of the timer. -/
def GenericTimer.Label.Sets {R : Type} : GenericTimer.Label R → Prop
  | .setOneshotEvent _ _ _ _ | .setPeriodicEvent _ _ _ | .cancelOneshotTimerEvent _
  | .cancelPeriodicTimerEvent _ => True
  | _ => False

inductive KernelOp (n m : Nat) (S R : Type)
  | scheduler (op : SchedulerOp n (Event m S) R)
  | eventTaskFinished (cpu : Fin n) (returned : Option TimerEvent)
  | subscribeEvent (event : Event m S) (trigger : R)
  | unsubscribeEvent (event : Event m S) (trigger : R)
  | timer (call : GenericTimer.Label R)
  | handleTick (oneshots periodics : List TimerEvent) (underflow : Bool)

section
variable [DecidableEq O] [DecidableEq S] [DecidableEq R] [Fintype R] (c : Configuration O S R)

/-- One call. -/
inductive KernelStep : Kernel n m S R → KernelOp n m S R → Kernel n m S R → Prop
  | scheduler {k op a} (hop : op.KeepsSubscriptions) (hcall : SchedulerStep c.program k.machine op a) :
      KernelStep k (.scheduler op) (k.withMachine a)
  | eventTaskFinished {k cpu returned k'} (hphase : k.phase cpu = .executing)
      (hcall : k.eventTaskFinished c cpu = .ok (returned, k')) :
      KernelStep k (.eventTaskFinished cpu returned)
        { k' with phase := Function.update k.phase cpu .dispatching }
  | subscribeEvent {k event trigger k'} (hcall : k.subscribeEvent event trigger = .ok k') :
      KernelStep k (.subscribeEvent event trigger) k'
  | unsubscribeEvent {k event trigger k'} (hcall : k.unsubscribeEvent event trigger = .ok k') :
      KernelStep k (.unsubscribeEvent event trigger) k'
  | timer {k call t} (hsets : call.Sets) (hcall : GenericTimer.Step k.timer call t) :
      KernelStep k (.timer call) { k with timer := t }
  | handleTick {k oneshots periodics underflow t k'}
      (hcall : GenericTimer.Step k.timer (.handleTick oneshots periodics underflow) t)
      (hraise : { k with timer := t }.raiseAll c (oneshots ++ periodics) = .ok k') :
      KernelStep k (.handleTick oneshots periodics underflow) k'

end

/-! ## Jobs -/

/-- Some tasks without a job have got one for an event of the kind. -/
def Adds {E : Type} (raised : E → Prop) (jobs jobs' : Task → Option (Job E R)) : Prop :=
  ∀ t, jobs' t = jobs t ∨ jobs t = none ∧ ∃ job, jobs' t = some job ∧ raised job.event

theorem Adds.refl {E : Type} {raised : E → Prop} (jobs : Task → Option (Job E R)) :
    Adds raised jobs jobs :=
  fun _ => .inl rfl

theorem Adds.trans {E : Type} {raised : E → Prop} {jobs jobs' jobs'' : Task → Option (Job E R)}
    (h : Adds raised jobs jobs') (h' : Adds raised jobs' jobs'') : Adds raised jobs jobs'' := by
  intro t
  rcases h' t with he' | ⟨hnone, job, hjob, hraised⟩
  · rw [he']
    exact h t
  · rcases h t with he | ⟨-, job', hjob', -⟩
    · exact .inr ⟨he ▸ hnone, job, hjob, hraised⟩
    · rw [hjob'] at hnone
      cases hnone

theorem Adds.mono {E : Type} {raised raised' : E → Prop} {jobs jobs' : Task → Option (Job E R)}
    (h : Adds raised jobs jobs') (hle : ∀ e, raised e → raised' e) : Adds raised' jobs jobs' :=
  fun t => (h t).imp_right fun ⟨hnone, job, hjob, hraised⟩ => ⟨hnone, job, hjob, hle _ hraised⟩

theorem Adds.keeps {E : Type} {raised : E → Prop} {jobs jobs' : Task → Option (Job E R)} {t : Task}
    {job : Job E R} (h : Adds raised jobs jobs') (hjob : jobs t = some job) :
    jobs' t = some job := by
  rcases h t with heq | ⟨hnone, -⟩
  · rw [heq, hjob]
  · rw [hjob] at hnone
    cases hnone

theorem Handed.adds {E : Type} {program : Program O E R} {pool : TaskQueue n} {event : E}
    {arg : UInt32} {x x' : Tasks n E R × (Task → Place n)} {news : List (Task × R)}
    (h : Handed program pool event arg x news x') (hpool : ∀ cpuNo, pool ≠ .mFifoQueue cpuNo) :
    Adds (· = event) (x.1.jobs x.2) (x'.1.jobs x'.2) := by
  intro t
  by_cases ht : t ∈ news.map Prod.fst
  · obtain ⟨y, hy, rfl⟩ := List.mem_map.mp ht
    exact .inr ⟨h.jobs_free hpool hy, _, h.jobs_of_mem hy, rfl⟩
  · exact .inl (h.jobs_of_notMem ht)

/-- The event that the call raises. -/
def SchedulerOp.raised {E : Type} (program : Program O E R) : SchedulerOp n E R → Option E
  | .eventTriggered event _ | .interruptEventTriggered event _ => some event
  | .callOSCTrigger _ _ => some program.pDummyEvent
  | _ => none

section
variable {E : Type} {program : Program O E R} {a a' : Machine n E R} {place : Task → Place n}
  {op : SchedulerOp n E R}

theorem Working.congr {proviso : Prop} (h : Working program proviso a place)
    (htasks : a'.system.tasks = a.system.tasks)
    (hptr : a'.system.pStackPointers = a.system.pStackPointers)
    (hpool : a'.system.stackPool = a.system.stackPool) (hphase : a'.phase = a.phase) :
    Working program proviso a' place where
  placed := htasks ▸ h.placed
  hand := h.hand
  stacksHeld := hptr ▸ hpool ▸ h.stacksHeld
  executing := htasks ▸ hphase ▸ h.executing
  waiting := hptr ▸ hphase ▸ h.waiting

/-- The calls of the event handler that leave the subscriber lists alone also keep all jobs, and only
the dispatch loop activates tasks. -/
theorem Working.schedulerStep [DecidableEq O] [DecidableEq E] [DecidableEq R] [Fintype R]
    (h : Working program False a place) (hop : op.KeepsSubscriptions)
    (hstep : SchedulerStep program a op a') : ∃ place', Working program False a' place' ∧
      Adds (fun e => op.raised program = some e) (a.system.tasks.jobs place)
        (a'.system.tasks.jobs place') ∧
      ∀ cpu t, a'.system.tasks.pActiveEventTask cpu = some t →
        a.system.tasks.pActiveEventTask cpu = some t ∨ op = .dispatchEvent cpu := by
  cases hstep with
  | @releaseStack cpu hphase =>
    have htasks := (System.releaseStack_spec h.stacksHeld cpu).1
    refine ⟨place, h.releaseStack hphase, ?_, fun cpu' t ht => .inl ?_⟩
    · rw [htasks]
      exact .refl _
    · rwa [htasks] at ht
  | @dispatchEvent cpu task s' hphase hcall =>
    obtain ⟨place', h', hjobs, -, hact⟩ := h.dispatchEvent hphase hcall
    refine ⟨place', h', hjobs ▸ .refl _, fun cpu' t ht => ?_⟩
    rcases eq_or_ne cpu' cpu with rfl | hc
    · exact .inr rfl
    · rw [hact, Function.update_of_ne hc] at ht
      exact .inl ht
  | eventTaskFinished => exact hop.elim
  | eventTriggered hcall =>
    obtain ⟨news, place', h', hrun, -⟩ := h.raise (by simp) False.elim hcall
    have hhanded := Gives.handed (by simp) hrun
    exact ⟨place', h', (hhanded.adds (by simp)).mono fun e he => by rw [he]; rfl,
      fun cpu t ht => .inl (hhanded.active ▸ ht)⟩
  | interruptEventTriggered hcall =>
    obtain ⟨news, place', h', hrun, -⟩ := h.raise (by simp) False.elim hcall
    have hhanded := Gives.handed (by simp) hrun
    exact ⟨place', h', (hhanded.adds (by simp)).mono fun e he => by rw [he]; rfl,
      fun cpu t ht => .inl (hhanded.active ▸ ht)⟩
  | callOSCTrigger hcall =>
    rcases h.callOSCTrigger hcall with ⟨rfl, -⟩ | ⟨t, place', h', hgives, -⟩
    · exact ⟨place, h, .refl _, fun _ _ => .inl⟩
    · have hhanded := Gives.handed (by simp) (.single hgives)
      exact ⟨place', h', (hhanded.adds (by simp)).mono fun e he => by rw [he]; rfl,
        fun cpu t ht => .inl (hgives.active ▸ ht)⟩
  | subscribeEvent => exact hop.elim
  | unsubscribeEvent => exact hop.elim

end

namespace Kernel

variable [DecidableEq R] [Fintype R] {c : Configuration O S R} {k k' : Kernel n m S R}
  {place : Task → Place n} {cpu : Fin n}

/-- The place of every task, and the tables of the CPUs. -/
abbrev Works (c : Configuration O S R) (k : Kernel n m S R) (place : Task → Place n) : Prop :=
  Working c.program False k.machine place

/-- The task is in a ready queue or active. -/
def Busy (k : Kernel n m S R) (t : Task) : Prop :=
  (∃ cpuNo pos, k.machine.system.At (.queue (.mFifoQueue cpuNo) pos) t) ∨
    ∃ cpu, k.machine.system.At (.active cpu) t

omit [DecidableEq R] [Fintype R] in
theorem Works.busy_iff_pending (h : k.Works c place) (t : Task) :
    k.Busy t ↔ (place t).Pending := by
  have hqueue := fun q => (h.placed.at_queue q t).1
  have hactive := fun cpu => h.placed.active cpu t
  constructor
  · rintro (⟨cpuNo, hpos⟩ | ⟨cpu, hcpu⟩)
    · rw [(hqueue (.mFifoQueue cpuNo)).mpr hpos]
      trivial
    · rw [(hactive cpu).mp hcpu]
      trivial
  · intro hpending
    cases hplace : place t with
    | queue q =>
      cases q with
      | mFifoQueue cpuNo => exact .inl ⟨cpuNo, (hqueue _).mp hplace⟩
      | _ => rw [hplace] at hpending; exact hpending.elim
    | active cpu => exact .inr ⟨cpu, (hactive cpu).mpr hplace⟩
    | inHand => rw [hplace] at hpending; exact hpending.elim

omit [DecidableEq R] [Fintype R] in
theorem Works.jobs_iff (h : k.Works c place) (t : Task) (job : Job (Event m S) R) :
    k.tasks.jobs place t = some job ↔ k.Busy t ∧ (k.tasks.eventTask t).event = some job.event ∧
      (k.tasks.eventTask t).trigger = some job.trigger ∧
      (k.tasks.eventTask t).mArg = job.mArg := by
  rw [h.busy_iff_pending, Tasks.jobs]
  split
  · next hpending =>
    obtain ⟨r, event, hr, he, -⟩ := h.placed.pending t hpending
    have hr' : (k.tasks.eventTask t).trigger = some r := hr
    have he' : (k.tasks.eventTask t).event = some event := he
    cases job
    simp [EventTask.job, hr', he', hpending]
  · next hpending => simp [hpending]

omit [DecidableEq R] [Fintype R] in
/-- A task is busy exactly if it has a job. -/
theorem Works.busy_iff (h : k.Works c place) (t : Task) :
    k.Busy t ↔ ∃ job, k.tasks.jobs place t = some job := by
  constructor
  · intro hbusy
    obtain ⟨r, event, hr, he, -⟩ := h.placed.pending t ((h.busy_iff_pending t).mp hbusy)
    exact ⟨⟨event, r, (k.tasks.eventTask t).mArg⟩, (h.jobs_iff t _).mpr ⟨hbusy, he, hr, rfl⟩⟩
  · rintro ⟨job, hjob⟩
    exact ((h.jobs_iff t job).mp hjob).1

omit [DecidableEq R] in
/-- Raising an event of the timer. -/
theorem Works.eventTriggered {event : Event m S} {arg : UInt32} {s : System n (Event m S) R}
    (h : k.Works c place) (hcall : k.machine.system.eventTriggered c.program event arg = .ok s) :
    ∃ news place', { k with tasks := s.tasks }.Works c place' ∧
      Handed c.program .pEventTaskPoolQueue event arg (k.tasks, place) news (s.tasks, place') ∧
      news.map Prod.snd = Queue.walk k.timer.triggerLinks
        (k.tasks.queues .pEventTaskPoolQueue).pSize
        ((k.subscribers event).get k.timer.triggerLinks 0) := by
  obtain ⟨news, place', h', hrun, hwalk, heq⟩ := Working.raise h (by simp) False.elim hcall
  refine ⟨news, place', h'.congr rfl ?_ ?_ rfl, Gives.handed (by simp) hrun, hwalk⟩
  · rw [heq]
    rfl
  · rw [heq]
    rfl

omit [DecidableEq R] in
/-- The events of a tick are raised one after the other. -/
theorem Works.raiseAll {events : List TimerEvent} (h : k.Works c place)
    (hcall : k.raiseAll c events = .ok k') : ∃ place', k'.Works c place' ∧
      Adds (fun e => ∃ x ∈ events, e = .mTimerConnections x) (k.tasks.jobs place)
        (k'.tasks.jobs place') ∧ k'.tasks.pActiveEventTask = k.tasks.pActiveEventTask ∧
      k' = { k with tasks := k'.tasks } := by
  induction events generalizing k place with
  | nil =>
    obtain rfl : k = k' := by simpa [Kernel.raiseAll] using hcall
    exact ⟨place, h, .refl _, rfl, rfl⟩
  | cons event events ih =>
    obtain ⟨s, hs, hrest⟩ := Exec.bind_eq_ok.mp hcall
    obtain ⟨news, place₁, h₁, hhanded, -⟩ := h.eventTriggered hs
    obtain ⟨place', h', hadds, hact, heq⟩ := ih h₁ hrest
    refine ⟨place', h', ?_, hact.trans hhanded.active, by rw [heq]⟩
    have hfirst : Adds (fun e => ∃ x ∈ event :: events, e = .mTimerConnections x)
        (k.tasks.jobs place) (s.tasks.jobs place₁) :=
      (hhanded.adds (by simp)).mono fun e he => ⟨event, by simp, he⟩
    exact hfirst.trans (hadds.mono fun e ⟨x, hx, he⟩ => ⟨x, by simp [hx], he⟩)

omit [DecidableEq R] in
theorem Works.raiseAll_ok (h : k.Works c place) (events : List TimerEvent) :
    ∃ k', k.raiseAll c events = .ok k' := by
  induction events generalizing k place with
  | nil => exact ⟨k, rfl⟩
  | cons event events ih =>
    have hspec : (k.machine.system.eventTriggered c.program (.mTimerConnections event) 0).Sat
        False _ := System.raise_spec h.placed h.hand (by simp) False.elim
    obtain ⟨s, hs, -⟩ := hspec.exists_eq_ok id
    obtain ⟨news, place', h', -⟩ := h.eventTriggered hs
    obtain ⟨k', hk'⟩ := ih h'
    exact ⟨k', Exec.bind_eq_ok.mpr ⟨s, hs, hk'⟩⟩

/-- The end of a task: its job is done, and a oneshot event goes back to the timer. -/
theorem Works.eventTaskFinished {returned : Option TimerEvent} (h : k.Works c place)
    (hphase : k.phase cpu = .executing)
    (hcall : k.eventTaskFinished c cpu = .ok (returned, k')) :
    ∃ t job place', k.tasks.pActiveEventTask cpu = some t ∧ k.tasks.jobs place t = some job ∧
      { k' with phase := Function.update k.phase cpu .dispatching }.Works c place' ∧
      k'.tasks.jobs place' = Function.update (k.tasks.jobs place) t none ∧
      k'.tasks.pActiveEventTask = Function.update k.tasks.pActiveEventTask cpu none ∧
      returned = k.asOneshot c job.event ∧ match returned with
        | some e => ∃ timer, k.timer.returnOneshotEventToPool e = .ok timer ∧
            k' = { k with tasks := k'.tasks, timer }
        | none => k' = { k with tasks := k'.tasks } := by
  obtain ⟨t, ht⟩ := Option.ne_none_iff_exists'.mp ((h.executing cpu).mp hphase)
  have hplace : place t = .active cpu := (h.placed.active cpu t).mp ht
  obtain ⟨r, event, hr, he, -⟩ := h.placed.pending t (by simp [hplace, Place.Pending])
  have hjob : k.tasks.jobs place t = some ⟨event, r, (k.tasks.eventTask t).mArg⟩ := by
    have hr' : (k.tasks.eventTask t).trigger = some r := hr
    have he' : (k.tasks.eventTask t).event = some event := he
    simp [Tasks.jobs, hplace, Place.Pending, EventTask.job, hr', he']
  have hevent : ((k.tasks.finish cpu t).eventTask t).event = some event := by
    rw [Tasks.finish_event]
    exact he
  -- whatever the pool, the tables are those after the end of the task
  have hdone : ∀ {pool : TaskQueue n} {tasks : Tasks n (Event m S) R} (timer : GenericTimer R),
      (∀ cpuNo, pool ≠ .mFifoQueue cpuNo) →
      (k.tasks.finish cpu t).requeueTo pool t = .ok tasks → ∃ place',
        Works c { k with
          tasks, timer, phase := Function.update k.phase cpu .dispatching } place' ∧
        tasks.jobs place' = Function.update (k.tasks.jobs place) t none ∧
        tasks.pActiveEventTask = Function.update k.tasks.pActiveEventTask cpu none := by
    intro pool tasks timer hpool hrequeue
    have hspec : ((k.tasks.finish cpu t).requeueTo pool t).Sat False _ :=
      h.placed.requeueFinished hplace hpool False.elim
    obtain ⟨hact, hjobs, hput⟩ := Exec.Sat.of_eq_ok hrequeue hspec
    have hhand : ∀ a, Function.update place t (.queue pool) a ≠ .inHand := by
      intro a
      rcases eq_or_ne a t with rfl | hat
      · simp
      · simpa [hat] using h.hand a
    have hworks : Working c.program False ⟨{ k.machine.system with tasks },
        Function.update k.phase cpu .dispatching⟩ _ :=
      h.cycle hput hhand h.stacksHeld hact (by simp) (by simp) fun _ _ => rfl
    exact ⟨_, hworks.congr rfl rfl rfl rfl, hjobs, hact⟩
  simp only [Kernel.eventTaskFinished, show k.tasks.pActiveEventTask cpu = some t from ht,
    hevent] at hcall
  split at hcall
  · next hint =>
    obtain ⟨tasks, hrequeue, hk⟩ := Exec.bind_eq_ok.mp hcall
    obtain ⟨rfl, rfl⟩ : none = returned ∧ _ = k' := by simpa using hk
    obtain ⟨place', hworks, hjobs, hact'⟩ := hdone k.timer (by simp) hrequeue
    have hnot : k.asOneshot c event = none := by
      cases event with
      | mTimerConnections e => simp [asOneshot, hint]
      | _ => rfl
    exact ⟨t, _, place', ht, hjob, hworks, hjobs, hact', hnot.symm, rfl⟩
  · split at hcall
    · next e hshot =>
      obtain ⟨timer, htimer, hcall⟩ := Exec.bind_eq_ok.mp hcall
      obtain ⟨tasks, hrequeue, hk⟩ := Exec.bind_eq_ok.mp hcall
      obtain ⟨rfl, rfl⟩ : some e = returned ∧ _ = k' := by simpa using hk
      obtain ⟨place', hworks, hjobs, hact'⟩ := hdone timer (by simp) hrequeue
      exact ⟨t, _, place', ht, hjob, hworks, hjobs, hact', hshot.symm, timer, htimer, rfl⟩
    · next hshot =>
      obtain ⟨tasks, hrequeue, hk⟩ := Exec.bind_eq_ok.mp hcall
      obtain ⟨rfl, rfl⟩ : none = returned ∧ _ = k' := by simpa using hk
      obtain ⟨place', hworks, hjobs, hact'⟩ := hdone k.timer (by simp) hrequeue
      exact ⟨t, _, place', ht, hjob, hworks, hjobs, hact', hshot.symm, rfl⟩

omit [DecidableEq R] [Fintype R] in
/-- Changing a subscriber list concerns neither tasks nor stacks. -/
theorem Works.setSubscribers [DecidableEq S] {event : Event m S} {links : QueueElements R}
    {queue : Queue R} (h : k.Works c place) : (k.setSubscribers event links queue).Works c place :=
  h.congr (by cases event <;> rfl) (by cases event <;> rfl) (by cases event <;> rfl)
    (by cases event <;> rfl)

variable [DecidableEq O] [DecidableEq S]

/-- Every call keeps the tasks and the stacks in order, whatever is subscribed. Only the end of a
task takes its job away, and only the dispatch loop activates one. -/
theorem Works.proceeds {op : KernelOp n m S R} (h : k.Works c place)
    (hstep : KernelStep c k op k') : ∃ place', k'.Works c place' ∧
      (∀ t job, k.tasks.jobs place t = some job → k'.tasks.jobs place' t = some job ∨
        ∃ cpu returned, op = .eventTaskFinished cpu returned ∧
          k.tasks.pActiveEventTask cpu = some t) ∧
      ∀ cpu t, k'.tasks.pActiveEventTask cpu = some t →
        k.tasks.pActiveEventTask cpu = some t ∨ op = .scheduler (.dispatchEvent cpu) := by
  cases hstep with
  | scheduler hop hcall =>
    obtain ⟨place', h', hadds, hact⟩ := Working.schedulerStep h hop hcall
    refine ⟨place', h'.congr rfl rfl rfl rfl, fun t job hjob => .inl (hadds.keeps hjob),
      fun cpu t ht => (hact cpu t ht).imp_right fun hop => by rw [hop]⟩
  | @eventTaskFinished cpu returned k' hphase hcall =>
    obtain ⟨t, job, place', ht, -, h', hjobs, hact, -⟩ := h.eventTaskFinished hphase hcall
    refine ⟨place', h', fun t' job' hjob' => ?_, fun cpu' t' ht' => .inl ?_⟩
    · rcases eq_or_ne t' t with rfl | htt
      · exact .inr ⟨cpu, returned, rfl, ht⟩
      · rw [hjobs, Function.update_of_ne htt]
        exact .inl hjob'
    · rw [hact, Function.update_apply] at ht'
      split at ht'
      · cases ht'
      · exact ht'
  | @subscribeEvent event trigger k' hcall =>
    obtain ⟨⟨links, queue⟩, -, hk⟩ := Exec.bind_eq_ok.mp hcall
    obtain rfl := Except.ok.inj hk
    exact ⟨place, h.setSubscribers, by cases event <;> exact fun _ _ => .inl,
      by cases event <;> exact fun _ _ => .inl⟩
  | @unsubscribeEvent event trigger k' hcall =>
    obtain ⟨⟨links, queue⟩, -, hk⟩ := Exec.bind_eq_ok.mp hcall
    obtain rfl := Except.ok.inj hk
    exact ⟨place, h.setSubscribers, by cases event <;> exact fun _ _ => .inl,
      by cases event <;> exact fun _ _ => .inl⟩
  | timer hsets hcall =>
    exact ⟨place, h.congr rfl rfl rfl rfl, fun _ _ => .inl, fun _ _ => .inl⟩
  | @handleTick oneshots periodics underflow t k' hcall hraise =>
    have htimer : { k with timer := t }.Works c place := h.congr rfl rfl rfl rfl
    obtain ⟨place', h', hadds, hact, -⟩ := htimer.raiseAll hraise
    exact ⟨place', h', fun t job hjob => .inl (hadds.keeps hjob),
      fun cpu t ht => .inl (hact ▸ ht)⟩

theorem Works.step {op : KernelOp n m S R} (h : k.Works c place) (hstep : KernelStep c k op k') :
    ∃ place', k'.Works c place' := by
  obtain ⟨place', h', -⟩ := h.proceeds hstep
  exact ⟨place', h'⟩

omit [DecidableEq O] [DecidableEq S] [DecidableEq R] [Fintype R] in
/-- After the constructors the timer is new, all tasks are in their pools, and nothing is
subscribed. -/
theorem boot_spec (c : Configuration O S R) (mTimerInterval : Nat) : ∃ k : Kernel n m S R,
    boot mTimerInterval = .ok k ∧ k.Works c (fun t => .queue t.home) ∧
      (k.tasks.queues .pEventTaskPoolQueue).pSize = cEventTaskPoolSize ∧
      (k.tasks.queues .pInterruptTaskPoolQueue).pSize = cInterruptTaskPoolSize ∧
      GenericTimer.new mTimerInterval = .ok k.timer ∧
      ∀ event, k.subscribers event = Queue.new := by
  obtain ⟨timer, lists, hnew, -⟩ := GenericTimer.new_refines (R := R) mTimerInterval
  obtain ⟨s, hboot, hplaced, hsize, hisize, hsub, hstacks, hact⟩ :=
    (@System.boot_sat n O (Event m S) R c.program False
      { triggerLinks := QueueElements.zeroed, mSubscribers := fun _ : Event m S => Queue.new,
        timerEventLinks := QueueElements.zeroed, mOneshotEventPool := Queue.new }).exists_eq_ok id
  let k : Kernel n m S R := {
    tasks := s.tasks
    pStackPointers := s.pStackPointers
    stackPool := s.stackPool
    phase := fun _ => .dispatching
    mSubscribers := fun _ => Queue.new
    pInterrupts := fun _ => Queue.new
    timer }
  have hk : boot mTimerInterval = .ok k := by
    simp only [boot, hnew, hboot, Exec.ok_bind, Exec.pure_eq, k]
  refine ⟨k, hk, ⟨hplaced, by simp, hstacks, ?_, by simp [k, machine]⟩, hsize, hisize,
    hnew, fun event => ?_⟩
  · simp [k, machine, hact]
  · have hfields := GenericTimer.new_fields hnew
    cases event with
    | mTimerConnections e => exact hfields.1 e
    | _ => rfl

end Kernel

end CyPhOS
