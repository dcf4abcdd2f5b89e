import CyPhOS.Kernel.Kernel

/-! # Delivery follows the subscriptions

What a call does to the subscriber lists is a `Change`: it adds a trigger to the list of one event,
removes one, or clears a list. The lists that a history of calls leaves are `subscribed`. A trigger has
one pair of links, so the queues of the events are these lists only as long as triggers are shared
alone: two events that have a subscriber in common have no other (`Queue.SharedAlone`). Then every
event is delivered to exactly its subscribers, in order (`delivery`).
-/

namespace CyPhOS

open Transition

variable {n m : Nat} {O S R : Type}

/-! ## What the timer does to subscriber lists -/

namespace GenericTimer

variable {t t' : GenericTimer R} {q : TimerQueue} {e : TimerEvent}

/-- Neither a subscriber list nor a link of a trigger has changed. -/
structure SameSubscribers (t t' : GenericTimer R) : Prop where
  links : t'.triggerLinks = t.triggerLinks
  lists : t'.mSubscribers = t.mSubscribers

theorem SameSubscribers.refl (t : GenericTimer R) : SameSubscribers t t := ⟨rfl, rfl⟩

theorem SameSubscribers.trans {t'' : GenericTimer R} (h : SameSubscribers t t')
    (h' : SameSubscribers t' t'') : SameSubscribers t t'' :=
  ⟨h'.links.trans h.links, h'.lists.trans h.lists⟩

theorem dequeueFirst_subscribers {o : Option TimerEvent} (h : t.dequeueFirst q = .ok (o, t')) :
    SameSubscribers t t' := by
  obtain ⟨⟨e, links, queue⟩, -, ht⟩ := Exec.bind_eq_ok.mp h
  cases ht
  exact ⟨rfl, rfl⟩

theorem enqueueFast_subscribers (h : t.enqueueFast q e = .ok t') : SameSubscribers t t' := by
  obtain ⟨⟨links, queue⟩, -, ht⟩ := Exec.bind_eq_ok.mp h
  cases ht
  exact ⟨rfl, rfl⟩

theorem enqueueOneshot_subscribers {r : Nat} {u : Bool}
    (h : t.enqueueOneshot e r = .ok (u, t')) : SameSubscribers t t' := by
  rw [enqueueOneshot] at h
  split at h
  · obtain ⟨t₁, henqueue, ht⟩ := Exec.bind_eq_ok.mp h
    cases ht
    have hsame := enqueueFast_subscribers henqueue
    exact ⟨hsame.links, hsame.lists⟩
  · obtain ⟨⟨o, sumDelay⟩, -, h⟩ := Exec.bind_eq_ok.mp h
    cases o with
    | none =>
      obtain ⟨t₁, henqueue, ht⟩ := Exec.bind_eq_ok.mp h
      cases ht
      have hsame := enqueueFast_subscribers henqueue
      exact ⟨hsame.links, hsame.lists⟩
    | some compEvent =>
      cases h
      exact ⟨rfl, rfl⟩

theorem fireLoop_subscribers {fuel : Nat} {fired fired' : List TimerEvent}
    (h : t.fireLoop fuel fired = .ok (fired', t')) : SameSubscribers t t' := by
  induction fuel generalizing t fired with
  | zero => cases h
  | succ fuel ih =>
    rw [fireLoop] at h
    split at h
    · cases h
      exact .refl _
    · split at h
      · cases h
      · split at h
        · obtain ⟨⟨o, t₁⟩, hdequeue, h⟩ := Exec.bind_eq_ok.mp h
          exact (dequeueFirst_subscribers hdequeue).trans (ih h)
        · cases h
          exact .refl _

theorem tickOneshots_subscribers {fired : List TimerEvent} {u : Bool}
    (h : t.tickOneshots = .ok (fired, u, t')) : SameSubscribers t t' := by
  rw [tickOneshots] at h
  split at h
  · cases h
    exact .refl _
  · split at h
    · cases h
    · next e _ =>
      have hticks : SameSubscribers t
          (t.setRemainingTicks e (sub32 (t.mRemainingTicks e) 1)) := ⟨rfl, rfl⟩
      dsimp only at h
      split at h
      · obtain ⟨⟨o, t₁⟩, hdequeue, h⟩ := Exec.bind_eq_ok.mp h
        simp only [Exec.pure_eq, Exec.ok_bind] at h
        obtain ⟨⟨fired₂, t₂⟩, hloop, ht⟩ := Exec.bind_eq_ok.mp h
        cases ht
        exact hticks.trans
          ((dequeueFirst_subscribers hdequeue).trans (fireLoop_subscribers hloop))
      · simp only [Exec.pure_eq, Exec.ok_bind] at h
        obtain ⟨⟨fired₂, t₂⟩, hloop, ht⟩ := Exec.bind_eq_ok.mp h
        cases ht
        exact hticks.trans (fireLoop_subscribers hloop)

theorem periodicLoop_subscribers {fuel : Nat} {o : Option TimerEvent}
    {fired fired' : List TimerEvent} {u u' : Bool}
    (h : periodicLoop fuel o t fired u = .ok (fired', u', t')) : SameSubscribers t t' := by
  induction fuel generalizing t o fired u with
  | zero =>
    cases o with
    | none =>
      cases h
      exact .refl _
    | some e => cases h
  | succ fuel ih =>
    cases o with
    | none =>
      cases h
      exact .refl _
    | some e =>
      simp only [periodicLoop] at h
      split at h
      · have hrest := ih h
        exact ⟨hrest.links, hrest.lists⟩
      · have hrest := ih h
        exact ⟨hrest.links, hrest.lists⟩

theorem handleTick_subscribers {oneshots periodics : List TimerEvent} {u : Bool}
    (h : t.handleTick = .ok (oneshots, periodics, u, t')) : SameSubscribers t t' := by
  obtain ⟨⟨fired, u₁, t₁⟩, honeshots, h⟩ := Exec.bind_eq_ok.mp h
  obtain ⟨⟨fired', u₂, t₂⟩, hperiodics, ht⟩ := Exec.bind_eq_ok.mp h
  cases ht
  have hsame : SameSubscribers t₁ t₂ := by
    rw [tickPeriodics] at hperiodics
    split at hperiodics
    · cases hperiodics
      exact .refl _
    · exact periodicLoop_subscribers hperiodics
  have hboth := (tickOneshots_subscribers honeshots).trans hsame
  exact ⟨hboth.links, hboth.lists⟩

section
variable [DecidableEq R] [Fintype R] {trigger : R}

/-- The list of the event after `enqueue`, the other lists as they were. -/
def Added (t : GenericTimer R) (e : TimerEvent) (trigger : R) (t' : GenericTimer R) : Prop :=
  ∃ links queue, (t.mSubscribers e).enqueue t.triggerLinks trigger = .ok (links, queue) ∧
    t'.triggerLinks = links ∧ t'.mSubscribers = Function.update t.mSubscribers e queue

def Cleared (t : GenericTimer R) (e : TimerEvent) (t' : GenericTimer R) : Prop :=
  ∃ links queue, (t.mSubscribers e).clearList t.triggerLinks = .ok (links, queue) ∧
    t'.triggerLinks = links ∧ t'.mSubscribers = Function.update t.mSubscribers e queue

theorem addSubscriber_added (h : t.addSubscriber e trigger = .ok t') : Added t e trigger t' := by
  obtain ⟨⟨links, queue⟩, henqueue, ht⟩ := Exec.bind_eq_ok.mp h
  cases ht
  exact ⟨links, queue, henqueue, rfl, rfl⟩

theorem clearSubscribers_cleared (h : t.clearSubscribers e = .ok t') : Cleared t e t' := by
  obtain ⟨⟨links, queue⟩, hclear, ht⟩ := Exec.bind_eq_ok.mp h
  cases ht
  exact ⟨links, queue, hclear, rfl, rfl⟩

theorem Added.congr {t₀ t₁ : GenericTimer R} (h : Added t e trigger t')
    (h₀ : SameSubscribers t₀ t) (h₁ : SameSubscribers t' t₁) : Added t₀ e trigger t₁ := by
  obtain ⟨links, queue, henqueue, hlinks, hlists⟩ := h
  rw [h₀.links, h₀.lists] at henqueue
  rw [h₀.lists] at hlists
  exact ⟨links, queue, henqueue, h₁.links.trans hlinks, h₁.lists.trans hlists⟩

theorem Cleared.congr {t₀ t₁ : GenericTimer R} (h : Cleared t e t')
    (h₀ : SameSubscribers t₀ t) (h₁ : SameSubscribers t' t₁) : Cleared t₀ e t₁ := by
  obtain ⟨links, queue, hclear, hlinks, hlists⟩ := h
  rw [h₀.links, h₀.lists] at hclear
  rw [h₀.lists] at hlists
  exact ⟨links, queue, hclear, h₁.links.trans hlinks, h₁.lists.trans hlists⟩

theorem returnOneshotEventToPool_cleared (h : t.returnOneshotEventToPool e = .ok t') :
    Cleared t e t' := by
  obtain ⟨t₁, hclear, henqueue⟩ := Exec.bind_eq_ok.mp h
  exact (clearSubscribers_cleared hclear).congr (.refl t) (enqueueFast_subscribers henqueue)

/-- What a call of the timer does to subscriber lists. -/
theorem Step.subscribers {l : Label R} (h : Step t l t') : match l with
    | .setOneshotEvent trigger _ (some e) _ => Added t e trigger t'
    | .setPeriodicEvent trigger _ (some e) => Added t e trigger t'
    | .cancelOneshotTimerEvent e => Cleared t e t'
    | .cancelPeriodicTimerEvent e => Cleared t e t'
    | .returnOneshotEventToPool e => Cleared t e t'
    | _ => SameSubscribers t t' := by
  cases h with
  | setOneshotEvent hdelay hcall =>
    obtain ⟨⟨o, t₁⟩, hdequeue, hcall⟩ := Exec.bind_eq_ok.mp hcall
    have hpool := dequeueFirst_subscribers hdequeue
    cases o with
    | none =>
      cases hcall
      exact hpool
    | some e =>
      obtain ⟨t₂, hadd, hcall⟩ := Exec.bind_eq_ok.mp hcall
      obtain ⟨⟨u, t₃⟩, henqueue, ht⟩ := Exec.bind_eq_ok.mp hcall
      cases ht
      exact (addSubscriber_added hadd).congr ⟨hpool.links, hpool.lists⟩
        (enqueueOneshot_subscribers henqueue)
  | setPeriodicEvent hinterval hcall =>
    obtain ⟨⟨o, t₁⟩, hdequeue, hcall⟩ := Exec.bind_eq_ok.mp hcall
    have hpool := dequeueFirst_subscribers hdequeue
    cases o with
    | none =>
      cases hcall
      exact hpool
    | some e =>
      obtain ⟨t₂, hadd, hcall⟩ := Exec.bind_eq_ok.mp hcall
      obtain ⟨t₃, henqueue, ht⟩ := Exec.bind_eq_ok.mp hcall
      cases ht
      exact (addSubscriber_added hadd).congr ⟨hpool.links, hpool.lists⟩
        (enqueueFast_subscribers henqueue)
  | cancelOneshotTimerEvent hfind hcall =>
    rw [GenericTimer.cancelOneshotTimerEvent, hfind, Exec.ok_bind] at hcall
    obtain ⟨t₁, hclear, henqueue⟩ := Exec.bind_eq_ok.mp hcall
    refine (clearSubscribers_cleared hclear).congr ?_ (enqueueFast_subscribers henqueue)
    unfold addToNext
    split <;> exact ⟨rfl, rfl⟩
  | cancelPeriodicTimerEvent hfind hcall =>
    rw [GenericTimer.cancelPeriodicTimerEvent, hfind, Exec.ok_bind] at hcall
    obtain ⟨t₁, hclear, henqueue⟩ := Exec.bind_eq_ok.mp hcall
    exact (clearSubscribers_cleared hclear).congr ⟨rfl, rfl⟩ (enqueueFast_subscribers henqueue)
  | returnOneshotEventToPool hfind hcall => exact returnOneshotEventToPool_cleared hcall
  | handleTick hcall => exact handleTick_subscribers hcall

end

end GenericTimer

/-! ## Subscriptions -/

/-- What a call does to the subscriber lists. -/
inductive Change (E R : Type)
  | keep
  | add (event : E) (trigger : R)
  | remove (event : E) (trigger : R)
  | clear (event : E)

/-- The lists after a change. A trigger that is in a list is not added again. -/
def Change.apply {E : Type} [DecidableEq E] [DecidableEq R] (lists : E → List R) :
    Change E R → E → List R
  | .keep => lists
  | .add event trigger => Function.update lists event
      (if trigger ∈ lists event then lists event else lists event ++ [trigger])
  | .remove event trigger => Function.update lists event ((lists event).erase trigger)
  | .clear event => Function.update lists event []

/-- An empty list stays empty unless a trigger is added to it. -/
theorem Change.apply_eq_nil {E : Type} [DecidableEq E] [DecidableEq R] {lists : E → List R}
    {change : Change E R} {event : E} (hnil : lists event = [])
    (hadd : ∀ trigger, change ≠ .add event trigger) : change.apply lists event = [] := by
  cases change with
  | keep => exact hnil
  | add event' trigger =>
    have hne : event ≠ event' := fun h => hadd trigger (h ▸ rfl)
    rwa [Change.apply, Function.update_of_ne hne]
  | remove event' trigger =>
    rcases eq_or_ne event event' with rfl | hne
    · rw [Change.apply, Function.update_self, hnil, List.erase_nil]
    · rwa [Change.apply, Function.update_of_ne hne]
  | clear event' =>
    rcases eq_or_ne event event' with rfl | hne
    · rw [Change.apply, Function.update_self]
    · rwa [Change.apply, Function.update_of_ne hne]

namespace KernelOp

def change : KernelOp n m S R → Change (Event m S) R
  | .subscribeEvent event trigger => .add event trigger
  | .unsubscribeEvent event trigger => .remove event trigger
  | .timer (.setOneshotEvent trigger _ (some e) _) => .add (.mTimerConnections e) trigger
  | .timer (.setPeriodicEvent trigger _ (some e)) => .add (.mTimerConnections e) trigger
  | .timer (.cancelOneshotTimerEvent e) => .clear (.mTimerConnections e)
  | .timer (.cancelPeriodicTimerEvent e) => .clear (.mTimerConnections e)
  | .eventTaskFinished _ (some e) => .clear (.mTimerConnections e)
  | _ => .keep

variable [DecidableEq S] [DecidableEq R]

/-- The triggers that are subscribed to each event after a history of calls. -/
def subscribed (ops : List (KernelOp n m S R)) : Event m S → List R :=
  ops.foldl (fun lists op => op.change.apply lists) fun _ => []

theorem subscribed_snoc (ops : List (KernelOp n m S R)) (op : KernelOp n m S R) :
    subscribed (ops ++ [op]) = op.change.apply (subscribed ops) := by
  simp [subscribed]

theorem subscribed_nodup (ops : List (KernelOp n m S R)) (event : Event m S) :
    (subscribed ops event).Nodup := by
  induction ops using List.reverseRecOn with
  | nil => exact List.nodup_nil
  | append_singleton ops op ih =>
    rw [subscribed_snoc]
    cases op.change with
    | keep => exact ih
    | add event' trigger =>
      rw [Change.apply, Function.update_apply]
      split
      · next heq =>
        subst heq
        split
        · exact ih
        · next hmem => exact ih.append (List.nodup_singleton _) (by simpa using hmem)
      · exact ih
    | remove event' trigger =>
      rw [Change.apply, Function.update_apply]
      split
      · next heq => exact heq ▸ ih.erase _
      · exact ih
    | clear event' =>
      rw [Change.apply, Function.update_apply]
      split
      · exact List.nodup_nil
      · exact ih

/-- If there is only one trigger, events have at most one subscriber. -/
theorem subscribed_alone [Unique R] (ops : List (KernelOp n m S R)) :
    Queue.SharedAlone (subscribed ops) :=
  .of_length_le_one fun event => by
    simpa using (subscribed_nodup ops event).length_le_card

end KernelOp

namespace Kernel

open Queue

variable [DecidableEq S] [DecidableEq R] [Fintype R] {c : Configuration O S R}
  {k k' : Kernel n m S R} {lists : Event m S → List R}

/-- The change of the lists, done on the pointers. -/
def Changed (k k' : Kernel n m S R) : Change (Event m S) R → Prop
  | .keep => k'.timer.triggerLinks = k.timer.triggerLinks ∧ k'.subscribers = k.subscribers
  | .add event trigger => ∃ links queue,
      (k.subscribers event).enqueue k.timer.triggerLinks trigger = .ok (links, queue) ∧
        k'.timer.triggerLinks = links ∧
        k'.subscribers = Function.update k.subscribers event queue
  | .remove event trigger => ∃ links queue,
      (k.subscribers event).remove k.timer.triggerLinks trigger = .ok (links, queue) ∧
        k'.timer.triggerLinks = links ∧
        k'.subscribers = Function.update k.subscribers event queue
  | .clear event => ∃ links queue,
      (k.subscribers event).clearList k.timer.triggerLinks = .ok (links, queue) ∧
        k'.timer.triggerLinks = links ∧
        k'.subscribers = Function.update k.subscribers event queue

omit [DecidableEq R] [Fintype R] in
/-- The lists after the timer has changed those of its events. -/
theorem subscribers_timer {t : GenericTimer R} {e : TimerEvent} {queue : Queue R}
    (hlists : t.mSubscribers = Function.update k.timer.mSubscribers e queue) :
    { k with timer := t }.subscribers =
      Function.update k.subscribers (.mTimerConnections e) queue := by
  funext event
  cases event with
  | mTimerConnections e' => simp [subscribers, hlists, Function.update_apply]
  | _ => simp [subscribers]

theorem changed_added {t : GenericTimer R} {e : TimerEvent} {trigger : R}
    (h : GenericTimer.Added k.timer e trigger t) :
    Changed k { k with timer := t } (.add (.mTimerConnections e) trigger) := by
  obtain ⟨links, queue, henqueue, hlinks, hlists⟩ := h
  exact ⟨links, queue, henqueue, hlinks, subscribers_timer hlists⟩

theorem changed_cleared {t : GenericTimer R} {e : TimerEvent}
    (h : GenericTimer.Cleared k.timer e t) :
    Changed k { k with timer := t } (.clear (.mTimerConnections e)) := by
  obtain ⟨links, queue, hclear, hlinks, hlists⟩ := h
  exact ⟨links, queue, hclear, hlinks, subscribers_timer hlists⟩

omit [DecidableEq S] [DecidableEq R] [Fintype R] in
theorem subscribers_same {t : GenericTimer R} (h : GenericTimer.SameSubscribers k.timer t) :
    { k with timer := t }.subscribers = k.subscribers := by
  funext event
  cases event with
  | mTimerConnections e => simp [subscribers, h.lists]
  | _ => rfl

/-- What a call does to the subscriber lists. -/
theorem KernelStep.changed [DecidableEq O] {op : KernelOp n m S R} {place : Task → Place n}
    (h : k.Works c place) (hstep : KernelStep c k op k') : Changed k k' op.change := by
  cases hstep with
  | scheduler hop hcall => exact ⟨rfl, rfl⟩
  | @eventTaskFinished cpu returned k₁ hphase hcall =>
    obtain ⟨t, job, place', -, -, -, -, -, -, hres⟩ := h.eventTaskFinished hphase hcall
    cases returned with
    | none =>
      have heq : k₁ = { k with tasks := k₁.tasks } := hres
      rw [heq]
      exact ⟨rfl, rfl⟩
    | some e =>
      obtain ⟨timer, htimer, heq⟩ := hres
      rw [heq]
      exact changed_cleared (GenericTimer.returnOneshotEventToPool_cleared htimer)
  | subscribeEvent hcall =>
    obtain ⟨⟨links, queue⟩, henqueue, hk⟩ := Exec.bind_eq_ok.mp hcall
    obtain rfl := Except.ok.inj hk
    exact ⟨links, queue, henqueue, by simp, by simp⟩
  | unsubscribeEvent hcall =>
    obtain ⟨⟨links, queue⟩, hremove, hk⟩ := Exec.bind_eq_ok.mp hcall
    obtain rfl := Except.ok.inj hk
    exact ⟨links, queue, hremove, by simp, by simp⟩
  | @timer call t hsets hcall =>
    have hsub := hcall.subscribers
    cases call with
    | setOneshotEvent trigger delay event underflow =>
      cases event with
      | none => exact ⟨hsub.links, subscribers_same hsub⟩
      | some e => exact changed_added hsub
    | setPeriodicEvent trigger interval event =>
      cases event with
      | none => exact ⟨hsub.links, subscribers_same hsub⟩
      | some e => exact changed_added hsub
    | cancelOneshotTimerEvent e => exact changed_cleared hsub
    | cancelPeriodicTimerEvent e => exact changed_cleared hsub
    | returnOneshotEventToPool e => exact hsets.elim
    | handleTick oneshots periodics underflow => exact hsets.elim
  | @handleTick oneshots periodics underflow t k₁ hcall hraise =>
    have hsub := hcall.subscribers
    have htimer : { k with timer := t }.Works c place := h.congr rfl rfl rfl rfl
    obtain ⟨place', -, -, -, heq⟩ := htimer.raiseAll hraise
    rw [heq]
    exact ⟨hsub.links, subscribers_same hsub⟩

/-- The subscriber lists are these, and triggers are shared alone. -/
abbrev Subscribes (k : Kernel n m S R) (lists : Event m S → List R) : Prop :=
  SharedFamily k.timer.triggerLinks k.subscribers lists

theorem Subscribes.changed {change : Change (Event m S) R} (h : k.Subscribes lists)
    (hchanged : Changed k k' change) (halone : SharedAlone (change.apply lists)) :
    k'.Subscribes (change.apply lists) := by
  cases change with
  | keep =>
    obtain ⟨hlinks, hlists⟩ := hchanged
    rw [Subscribes, hlinks, hlists]
    exact h
  | add event trigger =>
    obtain ⟨links, queue, hcall, hlinks, hlists⟩ := hchanged
    obtain ⟨links', queue', hok, hfam⟩ := h.enqueue halone
    obtain ⟨rfl, rfl⟩ : links' = links ∧ queue' = queue := by simpa using hok.symm.trans hcall
    rw [Subscribes, hlinks, hlists]
    exact hfam
  | remove event trigger =>
    obtain ⟨links, queue, hcall, hlinks, hlists⟩ := hchanged
    obtain ⟨links', queue', hok, hfam⟩ := SharedFamily.remove (i := event) (a := trigger) h
    obtain ⟨rfl, rfl⟩ : links' = links ∧ queue' = queue := by simpa using hok.symm.trans hcall
    rw [Subscribes, hlinks, hlists]
    exact hfam
  | clear event =>
    obtain ⟨links, queue, hcall, hlinks, hlists⟩ := hchanged
    obtain ⟨links', queue', hok, hfam⟩ := SharedFamily.clearList (i := event) h
    obtain ⟨rfl, rfl⟩ : links' = links ∧ queue' = queue := by simpa using hok.symm.trans hcall
    rw [Subscribes, hlinks, hlists]
    exact hfam

/-! ## Delivery -/

section
variable {k₀ : Kernel n m S R} {mTimerInterval : Nat} {ls : List (KernelOp n m S R)}
  {place : Task → Place n} {event : Event m S} {arg : UInt32} {trigger : R}

omit [DecidableEq S] [DecidableEq R] [Fintype R] in
/-- After the constructors nothing is subscribed. -/
theorem Subscribes.boot (c : Configuration O S R)
    (hboot : Kernel.boot (n := n) (m := m) mTimerInterval = .ok k) :
    k.Subscribes fun _ => [] := by
  obtain ⟨k₁, hok, -, -, -, -, hlists⟩ := boot_spec (n := n) (m := m) c mTimerInterval
  obtain rfl := Except.ok.inj (hok.symm.trans hboot)
  refine ⟨fun event => ?_, by simp [SharedAlone]⟩
  rw [hlists event]
  exact Rep.new _

theorem Subscribes.subscribeEvent (h : k.Subscribes lists)
    (halone : SharedAlone ((Change.add event trigger).apply lists)) :
    ∃ k', k.subscribeEvent event trigger = .ok k' ∧
      k'.Subscribes ((Change.add event trigger).apply lists) ∧ k'.tasks = k.tasks := by
  obtain ⟨links, queue, hok, hfam⟩ := h.enqueue halone
  refine ⟨k.setSubscribers event links queue, ?_, ?_, by cases event <;> rfl⟩
  · simp [Kernel.subscribeEvent, hok]
  · rw [Subscribes, triggerLinks_setSubscribers, subscribers_setSubscribers]
    exact hfam

/-- There is one new task for each of the triggers, in order: it comes from `pool` and is now in the
ready queue of its trigger. The other tasks are as they were. -/
def Created (c : Configuration O S R) (k : Kernel n m S R) (pool : TaskQueue n) (event : Event m S)
    (arg : UInt32) (triggers : List R) (s : System n (Event m S) R) : Prop :=
  ∃ tasks : List Task, tasks.Nodup ∧ tasks.length = triggers.length ∧
    (∀ i t r, tasks[i]? = some t → triggers[i]? = some r →
      (∃ pos, k.machine.system.At (.queue pool pos) t) ∧
      (∃ pos, s.At (.queue (.mFifoQueue (Tasks.readyQueue (c.trigger r).pAffinity)) pos) t) ∧
      s.tasks.eventTask t =
        { event := some event, trigger := some r, pTimestamp := k.tasks.pLastEventID + .ofNat i,
          pEnqueued := true, mArg := arg, pStackpointer := none }) ∧
    ∀ t ∉ tasks, s.tasks.eventTask t = k.tasks.eventTask t ∧
      ∀ q, (∃ pos, s.At (.queue q pos) t) ↔ ∃ pos, k.machine.system.At (.queue q pos) t

/-- Raising the event has created a task for each of the triggers, and has done nothing else. -/
def Raised (c : Configuration O S R) (k : Kernel n m S R) (pool : TaskQueue n) (event : Event m S)
    (arg : UInt32) (triggers : List R) (k' : Kernel n m S R) : Prop :=
  k' = { k with tasks := k'.tasks } ∧ Created c k pool event arg triggers k'.machine.system

omit [DecidableEq S] [DecidableEq R] [Fintype R] in
/-- The tasks that have been handed out are the new ones. -/
theorem Works.created {pool : TaskQueue n} {place' : Task → Place n} {news : List (Task × R)}
    (h : k.Works c place) (h' : k'.Works c place')
    (hhanded : Handed c.program pool event arg (k.tasks, place) news (k'.tasks, place')) :
    Created c k pool event arg (news.map Prod.snd) k'.machine.system := by
  have hat : ∀ q t, place t = .queue q ↔ ∃ pos, k.machine.system.At (.queue q pos) t :=
    fun q t => (h.placed.at_queue q t).1
  have hat' : ∀ q t, place' t = .queue q ↔ ∃ pos, k'.machine.system.At (.queue q pos) t :=
    fun q t => (h'.placed.at_queue q t).1
  refine ⟨news.map Prod.fst, hhanded.nodup, by simp, fun i t r ht hr => ?_, fun t ht => ?_⟩
  · rw [List.getElem?_map, Option.map_eq_some_iff] at ht hr
    obtain ⟨y, hy, rfl⟩ := ht
    obtain ⟨y', hy', rfl⟩ := hr
    obtain rfl := Option.some.inj (hy.symm.trans hy')
    have hmem := List.mem_of_getElem? hy
    have hfree : place y.1 = .queue pool := hhanded.free y hmem
    refine ⟨(hat _ _).mp hfree, (hat' _ _).mp (hhanded.place y hmem), ?_⟩
    have hstack : (k.tasks.eventTask y.1).pStackpointer = none := by
      by_contra hne
      obtain ⟨cpu, hactive⟩ := h.placed.stack y.1 hne
      rw [hactive] at hfree
      cases hfree
    have htask := hhanded.eventTask i y hy
    rwa [show (k.tasks.eventTask y.1).pStackpointer = none from hstack] at htask
  · have hplace : place' t = place t := hhanded.otherPlace t ht
    exact ⟨hhanded.otherTask t ht, fun q => by rw [← hat, ← hat', hplace]⟩

/-- `eventTriggered` has created the tasks: it takes them from the pool. -/
def Delivered (c : Configuration O S R) (k : Kernel n m S R) (event : Event m S) (arg : UInt32)
    (triggers : List R) (s : System n (Event m S) R) : Prop :=
  Created c k .pEventTaskPoolQueue event arg triggers s

omit [DecidableEq S] [DecidableEq R] in
/-- Tasks are handed to the walk from the head of the list on. -/
theorem Works.delivered {s : System n (Event m S) R} (h : k.Works c place)
    (hcall : k.machine.system.eventTriggered c.program event arg = .ok s) :
    Delivered c k event arg (walk k.timer.triggerLinks (k.tasks.queues .pEventTaskPoolQueue).pSize
      ((k.subscribers event).get k.timer.triggerLinks 0)) s := by
  obtain ⟨news, place', h', hhanded, hwalk⟩ := h.eventTriggered hcall
  rw [← hwalk]
  exact h.created h' hhanded

omit [DecidableEq S] [DecidableEq R] [Fintype R] in
/-- Tasks are created once, so it is clear how many. -/
theorem Works.delivered_length {s : System n (Event m S) R} {triggers triggers' : List R}
    (h : k.Works c place) (hdelivered : Delivered c k event arg triggers s)
    (hdelivered' : Delivered c k event arg triggers' s) : triggers.length = triggers'.length := by
  -- a new task was in the pool and is in a ready queue, so that it has not stayed where it was
  have hmem : ∀ (triggers : List R) {tasks tasks' : List Task},
      tasks.length = triggers.length →
      (∀ (i : Nat) t r, tasks[i]? = some t → triggers[i]? = some r →
        (∃ pos, k.machine.system.At (.queue .pEventTaskPoolQueue pos) t) ∧
        ∃ pos, s.At (.queue (.mFifoQueue (Tasks.readyQueue (c.trigger r).pAffinity)) pos) t) →
      (∀ t ∉ tasks', ∀ q, (∃ pos, s.At (.queue q pos) t) ↔
        ∃ pos, k.machine.system.At (.queue q pos) t) → tasks ⊆ tasks' := by
    intro triggers tasks tasks' hlen hnew hold t ht
    by_contra hnot
    obtain ⟨i, hi, hti⟩ := List.getElem_of_mem ht
    obtain ⟨hpool, hready⟩ := hnew i t triggers[i] (by rw [← hti]; exact List.getElem?_eq_getElem hi)
      (List.getElem?_eq_getElem (hlen ▸ hi))
    rw [hold t hnot, ← (h.placed.at_queue _ t).1] at hready
    rw [← (h.placed.at_queue _ t).1, hready] at hpool
    cases hpool
  obtain ⟨tasks, hnodup, hlen, hnew, hold⟩ := hdelivered
  obtain ⟨tasks', hnodup', hlen', hnew', hold'⟩ := hdelivered'
  have hsub : tasks ⊆ tasks' := hmem triggers hlen
    (fun i t r ht hr => ⟨(hnew i t r ht hr).1, (hnew i t r ht hr).2.1⟩) fun t ht => (hold' t ht).2
  have hsub' : tasks' ⊆ tasks := hmem triggers' hlen'
    (fun i t r ht hr => ⟨(hnew' i t r ht hr).1, (hnew' i t r ht hr).2.1⟩) fun t ht => (hold t ht).2
  rw [← hlen, ← hlen']
  exact le_antisymm (hnodup.subperm hsub).length_le (hnodup'.subperm hsub').length_le

omit [DecidableEq S] [DecidableEq R] [Fintype R] in
/-- In a list that the links fit, the walk goes through the list. -/
theorem Subscribes.walk (h : k.Subscribes lists) (event : Event m S) (size : Nat) :
    Queue.walk k.timer.triggerLinks size ((k.subscribers event).get k.timer.triggerLinks 0) =
      (lists event).take size := by
  have hrep := h.rep event
  rw [hrep.get, ← List.head?_eq_getElem?, walk_eq_take hrep.seg]

omit [DecidableEq S] [DecidableEq R] in
/-- Raising an event creates a task for each of its subscribers, in order, as far as tasks are
free. -/
theorem Subscribes.raised (h : k.Subscribes lists) (hworks : k.Works c place) (event : Event m S)
    (arg : UInt32) : ∃ s place', k.machine.system.eventTriggered c.program event arg = .ok s ∧
      { k with tasks := s.tasks }.Works c place' ∧
      k.Raised c .pEventTaskPoolQueue event arg
        ((lists event).take (k.tasks.queues .pEventTaskPoolQueue).pSize)
        { k with tasks := s.tasks } := by
  have hspec : (k.machine.system.eventTriggered c.program event arg).Sat False _ :=
    System.raise_spec hworks.placed hworks.hand (by simp) False.elim
  obtain ⟨s, hcall, -⟩ := hspec.exists_eq_ok id
  obtain ⟨news, place', hworks', hhanded, hwalk⟩ := hworks.eventTriggered hcall
  refine ⟨s, place', hcall, hworks', rfl, ?_⟩
  rw [← h.walk, ← hwalk]
  exact hworks.created hworks' hhanded

omit [DecidableEq S] [DecidableEq R] in
/-- If there are enough tasks, there is one for each subscriber. -/
theorem Subscribes.delivered (h : k.Subscribes lists) (hworks : k.Works c place)
    (hfree : (lists event).length ≤ (k.tasks.queues .pEventTaskPoolQueue).pSize) :
    ∃ s, k.machine.system.eventTriggered c.program event arg = .ok s ∧
      Delivered c k event arg (lists event) s := by
  obtain ⟨s, place', hcall, -, -, hcreated⟩ := h.raised hworks event arg
  rw [List.take_of_length_le hfree] at hcreated
  exact ⟨s, hcall, hcreated⟩

variable [DecidableEq O]

/-- The tasks stay in order over runs, whatever is subscribed. -/
theorem exists_works (hboot : boot mTimerInterval = .ok k₀) (hrun : Run (KernelStep c) k₀ ls k) :
    ∃ place, k.Works c place := by
  obtain ⟨k₁, hok, hworks, -⟩ := boot_spec (n := n) (m := m) c mTimerInterval
  obtain rfl := Except.ok.inj (hok.symm.trans hboot)
  refine hrun.invariant (motive := fun k => ∃ place, k.Works c place) ⟨_, hworks⟩ ?_
  intro k op k' ⟨place, h⟩ hstep
  exact h.step hstep

theorem subscribes_run (hboot : boot mTimerInterval = .ok k₀)
    (hrun : Run (KernelStep c) k₀ ls k)
    (halone : ∀ ms, ms <+: ls → SharedAlone (KernelOp.subscribed ms)) :
    k.Subscribes (KernelOp.subscribed ls) := by
  induction hrun with
  | nil => exact .boot c hboot
  | @snoc ls k op k' hrun hstep ih =>
    obtain ⟨place, hworks⟩ := exists_works hboot hrun
    have hsub := ih fun ms hms => halone ms (hms.trans (List.prefix_append ls [op]))
    have hlast := halone _ List.prefix_rfl
    rw [KernelOp.subscribed_snoc] at hlast ⊢
    exact hsub.changed (KernelStep.changed hworks hstep) hlast

/-- The links fit all subscriber lists at every moment of a run exactly if triggers are shared alone
at every moment. -/
theorem alone_iff_fit (hboot : boot mTimerInterval = .ok k₀) (hrun : Run (KernelStep c) k₀ ls k) :
    (∀ ms, ms <+: ls → SharedAlone (KernelOp.subscribed ms)) ↔
      ∀ ms k' rest, Run (KernelStep c) k₀ ms k' → ls = ms ++ rest → ∀ event,
        Rep k'.timer.triggerLinks (k'.subscribers event) (KernelOp.subscribed ms event) := by
  constructor
  · rintro halone ms k' rest hms rfl
    exact (subscribes_run hboot hms fun ms' hms' => halone ms' (hms'.trans (by simp))).rep
  · intro hfit
    induction hrun with
    | nil =>
      intro ms hms
      obtain rfl := List.prefix_nil.mp hms
      simp [KernelOp.subscribed, SharedAlone]
    | @snoc ls k op k' hrun hstep ih =>
      have hbefore := ih fun ms k'' rest hms hls =>
        hfit ms k'' (rest ++ [op]) hms (by rw [hls, List.append_assoc])
      intro ms hms
      rcases List.prefix_concat_iff.mp hms with rfl | hms
      · have hrep := hfit _ k' [] (hrun.snoc hstep) (by simp)
        have hlast := hbefore ls List.prefix_rfl
        rw [KernelOp.subscribed_snoc] at hrep ⊢
        cases hchange : op.change with
        | keep => exact hlast
        | add event trigger =>
          rw [hchange] at hrep
          by_cases hmem : trigger ∈ KernelOp.subscribed ls event
          · simpa [Change.apply, hmem] using hlast
          · simp only [Change.apply, if_neg hmem] at hrep ⊢
            exact hlast.snoc hrep
        | remove event trigger => exact hlast.sublist List.erase_sublist
        | clear event => exact hlast.sublist (List.nil_sublist _)
      · exact hbefore ms hms

/-- Raising an event after any history of subscriptions in which triggers are shared alone: with
enough free tasks there is exactly one task for each subscriber, in the order of subscription. -/
theorem delivery (hboot : boot mTimerInterval = .ok k₀) (hrun : Run (KernelStep c) k₀ ls k)
    (halone : ∀ ms, ms <+: ls → SharedAlone (KernelOp.subscribed ms)) (event : Event m S)
    (arg : UInt32) (hfree : (KernelOp.subscribed ls event).length ≤
      (k.tasks.queues .pEventTaskPoolQueue).pSize) :
    ∃ s, k.machine.system.eventTriggered c.program event arg = .ok s ∧
      Delivered c k event arg (KernelOp.subscribed ls event) s := by
  obtain ⟨place, hworks⟩ := exists_works hboot hrun
  exact (subscribes_run hboot hrun halone).delivered hworks hfree

end

/-- For the numbers of the events. -/
local instance three_events : NeZero 3 := ⟨Nat.succ_ne_zero 2⟩

/-- Three events, the last of which is the dummy event, and two triggers. -/
def threeEvents : Configuration Unit (Fin 3) Bool where
  trigger _ := { pDestinationOSC := some (), pDeps := ⟨[none], DepArray.none_mem⟩, pPriority := 1 }
  pType e := if e = 2 then .dummyCallEvent else .softwareEvent
  pType_ne e := by split <;> simp
  pDummyEvent := 2
  pDummyEvent_pType := rfl

/-- One trigger for two events. -/
def oneForBoth : List (KernelOp 1 0 (Fin 3) Bool) :=
  [.subscribeEvent (.event 0) false, .subscribeEvent (.event 1) false]

theorem oneForBoth_alone : ∀ ms, ms <+: oneForBoth → SharedAlone (KernelOp.subscribed ms) := by
  intro ms hms
  refine SharedAlone.of_length_le_one fun event => ?_
  simp only [oneForBoth, List.prefix_cons_iff, List.prefix_nil] at hms
  rcases hms with rfl | ⟨_, rfl, rfl | ⟨_, rfl, rfl⟩⟩
  · simp [KernelOp.subscribed]
  · simp only [KernelOp.subscribed, List.foldl, KernelOp.change, Change.apply,
      Function.update_apply]
    split <;> simp
  · simp only [KernelOp.subscribed, List.foldl, KernelOp.change, Change.apply,
      Function.update_apply]
    split <;> simp
    split <;> simp

theorem oneForBoth_run : ∃ (k₀ k : Kernel 1 0 (Fin 3) Bool), boot 1 = .ok k₀ ∧
    Run (KernelStep threeEvents) k₀ oneForBoth k ∧
    k.Subscribes (KernelOp.subscribed oneForBoth) ∧
    (k.tasks.queues .pEventTaskPoolQueue).pSize = cEventTaskPoolSize := by
  obtain ⟨k₀, hboot, -, hsize, -⟩ := boot_spec (n := 1) (m := 0) threeEvents 1
  have h₀ := Subscribes.boot threeEvents hboot
  obtain ⟨k₁, hcall₁, h₁, htasks₁⟩ := h₀.subscribeEvent
    (oneForBoth_alone [.subscribeEvent (.event 0) false] ⟨_, rfl⟩)
  obtain ⟨k₂, hcall₂, h₂, htasks₂⟩ := h₁.subscribeEvent (oneForBoth_alone oneForBoth ⟨_, rfl⟩)
  refine ⟨k₀, k₂, hboot, (Run.single (.subscribeEvent hcall₁)).snoc (.subscribeEvent hcall₂), h₂, ?_⟩
  rw [htasks₂, htasks₁, hsize]

theorem delivery_oneForBoth : ∃ (k₀ k : Kernel 1 0 (Fin 3) Bool), boot 1 = .ok k₀ ∧
    Run (KernelStep threeEvents) k₀ oneForBoth k ∧
    ∃ s, k.machine.system.eventTriggered threeEvents.program (.event 1) 7 = .ok s ∧
      Delivered threeEvents k (.event 1) 7 (KernelOp.subscribed oneForBoth (.event 1)) s := by
  obtain ⟨k₀, k, hboot, hrun, -, hsize⟩ := oneForBoth_run
  refine ⟨k₀, k, hboot, hrun, delivery hboot hrun oneForBoth_alone (.event 1) 7 ?_⟩
  rw [hsize]
  decide

/-- The trigger is subscribed to both events, and then another one to the first. The pointer of the
first trigger to the second is followed whichever event is raised. -/
theorem delivery_neighbour : ∃ (k₀ k : Kernel 1 0 (Fin 3) Bool) (s : System 1 (Event 0 (Fin 3)) Bool),
    boot 1 = .ok k₀ ∧
    Run (KernelStep threeEvents) k₀ (oneForBoth ++ [.subscribeEvent (.event 0) true]) k ∧
    KernelOp.subscribed (oneForBoth ++ [.subscribeEvent (.event 0) true]) (.event 1) = [false] ∧
    1 ≤ (k.tasks.queues .pEventTaskPoolQueue).pSize ∧
    k.machine.system.eventTriggered threeEvents.program (.event 1) 7 = .ok s ∧
    Delivered threeEvents k (.event 1) 7 [false, true] s ∧
    ¬ Delivered threeEvents k (.event 1) 7 [false] s := by
  obtain ⟨k₀, k₂, hboot, hrun, hsub, hsize⟩ := oneForBoth_run
  have hlist : ∀ i : Fin 3, i ≠ 2 → KernelOp.subscribed oneForBoth (.event i) = [false] := by
    decide
  have hrep : ∀ i : Fin 3, i ≠ 2 →
      Rep k₂.timer.triggerLinks (k₂.subscribers (.event i)) [false] :=
    fun i hi => hlist i hi ▸ hsub.rep (.event i)
  obtain ⟨links, queue, hok, hrep₀, -⟩ := (hrep 0 (by decide)).enqueue (a := true) (by decide)
  let k := k₂.setSubscribers (.event 0) links queue
  have hcall : k₂.subscribeEvent (.event 0) true = .ok k := by
    simp [Kernel.subscribeEvent, hok, k]
  have hrun' := hrun.snoc (.subscribeEvent hcall)
  obtain ⟨place, hworks⟩ := exists_works hboot hrun'
  have hget : (k.subscribers (.event 1)).get k.timer.triggerLinks 0 = some false := by
    have hsame : k.subscribers (.event 1) = k₂.subscribers (.event 1) := by simp [k]
    rw [hsame, Queue.get, (hrep 1 (by decide)).size, if_neg (by decide)]
    exact (hrep 1 (by decide)).head
  have hwalk : walk k.timer.triggerLinks (k.tasks.queues .pEventTaskPoolQueue).pSize
      ((k.subscribers (.event 1)).get k.timer.triggerLinks 0) = [false, true] := by
    rw [hget, show k.timer.triggerLinks = links by simp [k],
      show (k.tasks.queues .pEventTaskPoolQueue).pSize = cEventTaskPoolSize from hsize]
    exact walk_eq_take hrep₀.seg _
  have hspec : (k.machine.system.eventTriggered threeEvents.program (.event 1) 7).Sat False _ :=
    System.raise_spec hworks.placed hworks.hand (by simp) False.elim
  obtain ⟨s, hs, -⟩ := hspec.exists_eq_ok id
  have hdelivered := hworks.delivered hs
  rw [hwalk] at hdelivered
  refine ⟨k₀, k, s, hboot, hrun', by decide, ?_, hs, hdelivered, fun hone => ?_⟩
  · rw [show (k.tasks.queues .pEventTaskPoolQueue).pSize = cEventTaskPoolSize from hsize]
    decide
  · exact absurd (hworks.delivered_length hone hdelivered) (by decide)

end Kernel

end CyPhOS
