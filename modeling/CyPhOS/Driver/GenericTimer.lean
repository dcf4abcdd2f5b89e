import CyPhOS.Common.Queue
import CyPhOS.EventHandling.EventTask

/-! # The software timer

Events of `GenericTimer` come from two static pools. Periodic events are a list in which every tick
counts down every event. Oneshot events are a delta queue: `mRemainingTicks` of an event counts from
the tick at which the one before it is due, and a tick counts down the first only.

Counters are `uint32_t`, with the arithmetic of `add32` and `sub32`. The operations that subtract
also say whether a difference went below zero. `handleTick` returns the events it passes to
`EventHandler::eventTriggered`, oneshot events first.
-/

namespace CyPhOS

def cTimerPoolSize : Nat := 32

/-- A pointer to an element of the array `mTimerConnections`, whose first half are the oneshot
events. -/
abbrev TimerEvent := Fin (cTimerPoolSize + cTimerPoolSize)

inductive TimerQueue
  | mOneshotQueue
  | mPeriodicQueue
  | mOneshotEventPool
  | mPeriodicEventPool
  deriving DecidableEq

/-- `a + b` on `uint32_t`. -/
def add32 (a b : Nat) : Nat := (a + b) % 2 ^ 32

/-- `a - b` on `uint32_t`. -/
def sub32 (a b : Nat) : Nat := (a + 2 ^ 32 - b) % 2 ^ 32

theorem add32_eq {a b : Nat} (h : a + b < 2 ^ 32) : add32 a b = a + b := Nat.mod_eq_of_lt h

theorem sub32_eq {a b : Nat} (h : b ≤ a) (ha : a < 2 ^ 32) : sub32 a b = a - b := by
  rw [sub32, Nat.sub_add_comm h, Nat.add_mod_right, Nat.mod_eq_of_lt (by omega)]

/-- The timer over triggers `R`, with the links of the events and of the triggers. -/
structure GenericTimer (R : Type) where
  mTimerInterval : Nat
  mTicks : Nat
  timerEventLinks : QueueElements TimerEvent
  queues : TimerQueue → Queue TimerEvent
  mTimerEventType : TimerEvent → TimerEventType
  mInterval : TimerEvent → Nat
  mRemainingTicks : TimerEvent → Nat
  triggerLinks : QueueElements R
  mSubscribers : TimerEvent → Queue R

namespace GenericTimer

variable {R : Type}

/-! ## Fields -/

/-- Put back a queue that an operation has changed. -/
def setQueue (t : GenericTimer R) (q : TimerQueue) (timerEventLinks : QueueElements TimerEvent)
    (queue : Queue TimerEvent) : GenericTimer R :=
  { t with timerEventLinks, queues := Function.update t.queues q queue }

def setRemainingTicks (t : GenericTimer R) (event : TimerEvent) (ticks : Nat) : GenericTimer R :=
  { t with mRemainingTicks := Function.update t.mRemainingTicks event ticks }

def enqueueFast (t : GenericTimer R) (q : TimerQueue) (event : TimerEvent) :
    Exec (GenericTimer R) := do
  let (links, queue) ← (t.queues q).enqueueFast t.timerEventLinks event
  pure (t.setQueue q links queue)

def dequeueFirst (t : GenericTimer R) (q : TimerQueue) :
    Exec (Option TimerEvent × GenericTimer R) := do
  let (event, links, queue) ← (t.queues q).dequeueFirst t.timerEventLinks
  pure (event, t.setQueue q links queue)

def get (t : GenericTimer R) (q : TimerQueue) (pos : Nat) : Option TimerEvent :=
  (t.queues q).get t.timerEventLinks pos

section
variable [DecidableEq R] [Fintype R]

def addSubscriber (t : GenericTimer R) (event : TimerEvent) (trigger : R) :
    Exec (GenericTimer R) := do
  let (triggerLinks, queue) ← (t.mSubscribers event).enqueue t.triggerLinks trigger
  pure { t with triggerLinks, mSubscribers := Function.update t.mSubscribers event queue }

/-- `event->mSubscribers.clearList()`. -/
def clearSubscribers (t : GenericTimer R) (event : TimerEvent) : Exec (GenericTimer R) := do
  let (triggerLinks, queue) ← (t.mSubscribers event).clearList t.triggerLinks
  pure { t with triggerLinks, mSubscribers := Function.update t.mSubscribers event queue }

end

/-! ## Construction -/

/-- One round of the loop that fills the pools. -/
def enqueueToPools
    (s : QueueElements TimerEvent × Queue TimerEvent × Queue TimerEvent)
    (i : Fin cTimerPoolSize) :
    Exec (QueueElements TimerEvent × Queue TimerEvent × Queue TimerEvent) := do
  let (links, mOneshotEventPool) ← s.2.1.enqueue s.1 (i.castAdd cTimerPoolSize)
  let (links, mPeriodicEventPool) ← s.2.2.enqueue links (i.natAdd cTimerPoolSize)
  pure (links, mOneshotEventPool, mPeriodicEventPool)

/-- The constructor, in zeroed storage. The interval is the one the port sets up. -/
@[irreducible] def new (mTimerInterval : Nat) : Exec (GenericTimer R) := do
  let (timerEventLinks, mOneshotEventPool, mPeriodicEventPool) ←
    (List.finRange cTimerPoolSize).foldlM enqueueToPools
      (QueueElements.zeroed, Queue.new, Queue.new)
  let queues : TimerQueue → Queue TimerEvent
    | .mOneshotQueue | .mPeriodicQueue => Queue.new
    | .mOneshotEventPool => mOneshotEventPool
    | .mPeriodicEventPool => mPeriodicEventPool
  pure { mTimerInterval, mTicks := 0, timerEventLinks, queues,
         mTimerEventType := fun _ => .oneshot, mInterval := fun _ => 0,
         mRemainingTicks := fun _ => 0, triggerLinks := QueueElements.zeroed,
         mSubscribers := fun _ => Queue.new }

/-! ## Setting events -/

section
variable [DecidableEq R] [Fintype R]

def setPeriodicEvent (t : GenericTimer R) (trigger : R) (interval : Nat) :
    Exec (Option TimerEvent × GenericTimer R) := do
  match ← t.dequeueFirst .mPeriodicEventPool with
  | (none, t) => pure (none, t)
  | (some event, t) =>
    let t := { t with
      mTimerEventType := Function.update t.mTimerEventType event .periodic
      mInterval := Function.update t.mInterval event (interval / t.mTimerInterval) }
    let t := t.setRemainingTicks event (t.mInterval event)
    let t ← t.addSubscriber event trigger
    let t ← t.enqueueFast .mPeriodicQueue event
    pure (some event, t)

omit [DecidableEq R] [Fintype R] in
/-- The loop over the queue: the first event due after `requiredTicks`, and the sum of the delays up
to it. -/
def searchLoop (t : GenericTimer R) (requiredTicks : Nat) :
    Nat → Option TimerEvent → Nat → Exec (Option TimerEvent × Nat)
  | _, none, sumDelay => .ok (none, sumDelay)
  | 0, some _, _ => .error .hang
  | fuel + 1, some compEvent, sumDelay =>
    let sumDelay := add32 sumDelay (t.mRemainingTicks compEvent)
    if requiredTicks < sumDelay then .ok (some compEvent, sumDelay)
    else searchLoop t requiredTicks fuel (t.timerEventLinks.pNext compEvent) sumDelay

omit [DecidableEq R] [Fintype R] in
/-- Enqueue an event into the delta queue; also says whether a subtraction went below zero. -/
def enqueueOneshot (t : GenericTimer R) (event : TimerEvent) (requiredTicks : Nat) :
    Exec (Bool × GenericTimer R) := do
  if (t.queues .mOneshotQueue).pSize = 0 then
    let t := t.setRemainingTicks event requiredTicks
    pure (false, ← t.enqueueFast .mOneshotQueue event)
  else
    match ← t.searchLoop requiredTicks (Fintype.card TimerEvent) (t.get .mOneshotQueue 0) 0 with
    | (some compEvent, sumDelay) =>
      let delayBefore := sub32 sumDelay (t.mRemainingTicks compEvent)
      let ticks := sub32 requiredTicks delayBefore
      let underflow := decide (sumDelay < t.mRemainingTicks compEvent ∨
        requiredTicks < delayBefore ∨ t.mRemainingTicks compEvent < ticks)
      let t := t.setRemainingTicks event ticks
      let t := t.setRemainingTicks compEvent (sub32 (t.mRemainingTicks compEvent) ticks)
      let (links, queue) :=
        (t.queues .mOneshotQueue).enqueueBefore t.timerEventLinks event compEvent
      pure (underflow, t.setQueue .mOneshotQueue links queue)
    | (none, sumDelay) =>
      let t := t.setRemainingTicks event (sub32 requiredTicks sumDelay)
      pure (decide (requiredTicks < sumDelay), ← t.enqueueFast .mOneshotQueue event)

def setOneshotEvent (t : GenericTimer R) (trigger : R) (delay : Nat) :
    Exec (Option TimerEvent × Bool × GenericTimer R) := do
  match ← t.dequeueFirst .mOneshotEventPool with
  | (none, t) => pure (none, false, t)
  | (some event, t) =>
    let t := { t with mTimerEventType := Function.update t.mTimerEventType event .oneshot }
    let t ← t.addSubscriber event trigger
    let (underflow, t) ← t.enqueueOneshot event (delay / t.mTimerInterval)
    pure (some event, underflow, t)

/-! ## The tick -/

omit [DecidableEq R] [Fintype R] in
/-- The loop that fires the events at the head with no ticks remaining. -/
def fireLoop : Nat → GenericTimer R → List TimerEvent → Exec (List TimerEvent × GenericTimer R)
  | 0, _, _ => .error .hang
  | fuel + 1, t, fired =>
    if (t.queues .mOneshotQueue).pSize = 0 then .ok (fired, t)
    else
      match t.get .mOneshotQueue 0 with
      | none => .error .nullDereference
      | some event =>
        if t.mRemainingTicks event = 0 then do
          let (_, t) ← t.dequeueFirst .mOneshotQueue
          fireLoop fuel t (fired ++ [event])
        else .ok (fired, t)

omit [DecidableEq R] [Fintype R] in
def tickOneshots (t : GenericTimer R) : Exec (List TimerEvent × Bool × GenericTimer R) :=
  if (t.queues .mOneshotQueue).pSize = 0 then .ok ([], false, t)
  else
    match t.get .mOneshotQueue 0 with
    | none => .error .nullDereference
    | some event => do
      let underflow := decide (t.mRemainingTicks event < 1)
      let t := t.setRemainingTicks event (sub32 (t.mRemainingTicks event) 1)
      let (fired, t) ←
        if t.mRemainingTicks event = 0 then do
          let (_, t) ← t.dequeueFirst .mOneshotQueue
          pure ([event], t)
        else pure ([], t)
      let (fired, t) ← t.fireLoop (Fintype.card TimerEvent + 1) fired
      pure (fired, underflow, t)

omit [DecidableEq R] [Fintype R] in
/-- The loop that counts down every periodic event and reloads those that fire. -/
def periodicLoop : Nat → Option TimerEvent → GenericTimer R → List TimerEvent → Bool →
    Exec (List TimerEvent × Bool × GenericTimer R)
  | _, none, t, fired, underflow => .ok (fired, underflow, t)
  | 0, some _, _, _, _ => .error .hang
  | fuel + 1, some event, t, fired, underflow =>
    let underflow := underflow || decide (t.mRemainingTicks event < 1)
    let t := t.setRemainingTicks event (sub32 (t.mRemainingTicks event) 1)
    let next := t.timerEventLinks.pNext event
    if t.mRemainingTicks event = 0 then
      periodicLoop fuel next (t.setRemainingTicks event (t.mInterval event)) (fired ++ [event])
        underflow
    else periodicLoop fuel next t fired underflow

omit [DecidableEq R] [Fintype R] in
def tickPeriodics (t : GenericTimer R) : Exec (List TimerEvent × Bool × GenericTimer R) :=
  if (t.queues .mPeriodicQueue).pSize = 0 then .ok ([], false, t)
  else periodicLoop (Fintype.card TimerEvent) (t.get .mPeriodicQueue 0) t [] false

omit [DecidableEq R] [Fintype R] in
/-- The oneshot events fired, the periodic events fired, and whether a counter at zero was
decremented. -/
def handleTick (t : GenericTimer R) :
    Exec (List TimerEvent × List TimerEvent × Bool × GenericTimer R) := do
  let (oneshots, underflow, t) ← t.tickOneshots
  let (periodics, underflow', t) ← t.tickPeriodics
  pure (oneshots, periodics, underflow || underflow',
    { t with mTicks := (t.mTicks + 1) % 2 ^ 64 })

/-! ## Giving events back -/

def cancelPeriodicTimerEvent (t : GenericTimer R) (event : TimerEvent) :
    Exec (GenericTimer R) := do
  match ← (t.queues .mPeriodicQueue).find t.timerEventLinks (· == event) with
  | none => .error .nullDereference
  | some compareEvent =>
    let (links, queue) :=
      (t.queues .mPeriodicQueue).removeElementFromList t.timerEventLinks compareEvent
    let t ← (t.setQueue .mPeriodicQueue links queue).clearSubscribers event
    t.enqueueFast .mPeriodicEventPool event

omit [DecidableEq R] [Fintype R] in
/-- The event behind a cancelled one takes over its remaining ticks. -/
def addToNext (t : GenericTimer R) (compareEvent : TimerEvent) : GenericTimer R :=
  match t.timerEventLinks.pNext compareEvent with
  | none => t
  | some nextEvent =>
    t.setRemainingTicks nextEvent
      (add32 (t.mRemainingTicks nextEvent) (t.mRemainingTicks compareEvent))

def cancelOneshotTimerEvent (t : GenericTimer R) (event : TimerEvent) : Exec (GenericTimer R) := do
  match ← (t.queues .mOneshotQueue).find t.timerEventLinks (· == event) with
  | none => .error .nullDereference
  | some compareEvent =>
    let t := t.addToNext compareEvent
    let (links, queue) :=
      (t.queues .mOneshotQueue).removeElementFromList t.timerEventLinks compareEvent
    let t ← (t.setQueue .mOneshotQueue links queue).clearSubscribers event
    t.enqueueFast .mOneshotEventPool event

/-- Called when the task of a oneshot event that has fired is done. -/
def returnOneshotEventToPool (t : GenericTimer R) (event : TimerEvent) : Exec (GenericTimer R) := do
  let t ← t.clearSubscribers event
  t.enqueueFast .mOneshotEventPool event

def returnPeriodicEventToPool (t : GenericTimer R) (event : TimerEvent) :
    Exec (GenericTimer R) := do
  let t ← t.clearSubscribers event
  t.enqueueFast .mPeriodicEventPool event

end

end GenericTimer
end CyPhOS
