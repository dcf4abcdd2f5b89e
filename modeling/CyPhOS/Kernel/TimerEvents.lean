import CyPhOS.Driver.TimerPlaces
import CyPhOS.Kernel.Subscriptions

/-! # Oneshot events are not lost

A oneshot event of the timer is in the free pool, in the oneshot queue, or carried by a task: `Kept`
says that it is in exactly one of these, with `loc` for the queue and `carrier` for the task. A tick
takes the due events off the queue and gives tasks to as many as there are free tasks, in order
(`Tracks.tick`), so it keeps all events exactly if there are enough. The end of a task gives its
event back.
-/

namespace CyPhOS

open Transition Queue

variable {n m : Nat} {O S R : Type}

/-! ## Carriers -/

/-- The task is pending or active, with the timer event as its event. -/
def Carries (jobs : Task → Option (Job (Event m S) R)) (e : TimerEvent) (t : Task) : Prop :=
  ∃ job, jobs t = some job ∧ job.event = .mTimerConnections e

/-- The tasks of the oneshot events. -/
def Carried (jobs : Task → Option (Job (Event m S) R)) (carrier : TimerEvent → Option Task) :
    Prop :=
  ∀ e : TimerEvent, e.val < cTimerPoolSize → ∀ t, Carries jobs e t ↔ carrier e = some t

section
variable {jobs jobs' : Task → Option (Job (Event m S) R)} {carrier : TimerEvent → Option Task}
  {e : TimerEvent} {t : Task} {job : Job (Event m S) R}

/-- Tasks for other events carry none of the oneshot events. -/
theorem Carried.adds {raised : Event m S → Prop} (h : Carried jobs carrier)
    (hadds : Adds raised jobs jobs')
    (hraised : ∀ e : TimerEvent, e.val < cTimerPoolSize → ¬ raised (.mTimerConnections e)) :
    Carried jobs' carrier := by
  intro e he t
  rw [← h e he t]
  rcases hadds t with heq | ⟨hnone, job, hjob, hevent⟩
  · rw [Carries, heq, Carries]
  · refine iff_of_false ?_ ?_
    · rintro ⟨job', hjob', hevent'⟩
      obtain rfl := Option.some.inj (hjob.symm.trans hjob')
      exact hraised e he (hevent' ▸ hevent)
    · rintro ⟨job', hjob', -⟩
      rw [hnone] at hjob'
      cases hjob'

/-- A free task gets a oneshot event that had none. -/
theorem Carried.give (h : Carried jobs carrier) (ht : jobs t = none) (he : carrier e = none)
    (hevent : job.event = .mTimerConnections e) :
    Carried (Function.update jobs t (some job)) (Function.update carrier e (some t)) := by
  intro e' he' t'
  have hold := h e' he' t'
  by_cases htt : t' = t
  · subst htt
    have hnot : carrier e' ≠ some t' := by
      intro hcarrier
      obtain ⟨job', hjob', -⟩ := hold.mpr hcarrier
      rw [ht] at hjob'
      cases hjob'
    by_cases hee : e' = e
    · subst hee
      simp [Carries, hevent]
    · rw [Function.update_of_ne hee]
      refine iff_of_false ?_ hnot
      rintro ⟨job', hjob', hevent'⟩
      rw [Function.update_self] at hjob'
      obtain rfl := Option.some.inj hjob'
      rw [hevent] at hevent'
      exact hee (Event.mTimerConnections.inj hevent').symm
  · have hsame : Carries (Function.update jobs t (some job)) e' t' ↔ Carries jobs e' t' := by
      rw [Carries, Function.update_of_ne htt, Carries]
    rw [hsame, hold]
    by_cases hee : e' = e
    · subst hee
      simp [he, Ne.symm htt]
    · rw [Function.update_of_ne hee]

/-- A task is done. -/
theorem Carried.done (h : Carried jobs carrier) (hjob : jobs t = some job)
    {carrier' : TimerEvent → Option Task}
    (hevent : ∀ e : TimerEvent, e.val < cTimerPoolSize → job.event = .mTimerConnections e →
      carrier' e = none)
    (hother : ∀ e : TimerEvent, job.event ≠ .mTimerConnections e → carrier' e = carrier e) :
    Carried (Function.update jobs t none) carrier' := by
  intro e he t'
  have hold := h e he t'
  by_cases hee : job.event = .mTimerConnections e
  · rw [hevent e he hee]
    refine iff_of_false ?_ (by simp)
    rintro ⟨job', hjob', hevent'⟩
    by_cases htt : t' = t
    · subst htt
      simp at hjob'
    · rw [Function.update_of_ne htt] at hjob'
      have hcarrier := (h e he t').mp ⟨job', hjob', hevent'⟩
      rw [(h e he t).mp ⟨job, hjob, hee⟩] at hcarrier
      exact htt (Option.some.inj hcarrier).symm
  · rw [hother e hee, ← hold]
    by_cases htt : t' = t
    · subst htt
      refine iff_of_false (by simp [Carries]) ?_
      rintro ⟨job', hjob', hevent'⟩
      obtain rfl := Option.some.inj (hjob.symm.trans hjob')
      exact hee hevent'
    · rw [Carries, Function.update_of_ne htt, Carries]

end

namespace Kernel

variable [DecidableEq R] [Fintype R] {c : Configuration O S R} {k k' : Kernel n m S R}
  {subs : Event m S → List R} {place : Task → Place n} {loc : TimerEvent → Option TimerQueue}
  {carrier : TimerEvent → Option Task} {e : TimerEvent}

/-! ## Raising oneshot events -/

omit [DecidableEq R] in
/-- An event with one subscriber is given a task, unless none is free. -/
theorem Works.raiseOneshot {event : Event m S} {arg : UInt32} {trigger : R}
    {s : System n (Event m S) R} (h : k.Works c place) (hsubs : k.Subscribes subs)
    (hone : subs event = [trigger])
    (hcall : k.machine.system.eventTriggered c.program event arg = .ok s) :
    ∃ place', { k with tasks := s.tasks }.Works c place' ∧
      ((k.tasks.queues .pEventTaskPoolQueue).pSize = 0 ∧
          (s.tasks.queues .pEventTaskPoolQueue).pSize = 0 ∧
          s.tasks.jobs place' = k.tasks.jobs place ∨
        (s.tasks.queues .pEventTaskPoolQueue).pSize + 1 =
            (k.tasks.queues .pEventTaskPoolQueue).pSize ∧
          ∃ t, k.tasks.jobs place t = none ∧
            s.tasks.jobs place' =
              Function.update (k.tasks.jobs place) t (some ⟨event, trigger, arg⟩)) := by
  obtain ⟨news, place', h', hhanded, hwalk⟩ := h.eventTriggered hcall
  have hsize : (s.tasks.queues .pEventTaskPoolQueue).pSize + news.length =
    (k.tasks.queues .pEventTaskPoolQueue).pSize := hhanded.size
  have hrep := hsubs.rep event
  rw [hrep.get, ← List.head?_eq_getElem?, walk_eq_take hrep.seg, hone] at hwalk
  refine ⟨place', h', ?_⟩
  cases hpool : (k.tasks.queues .pEventTaskPoolQueue).pSize with
  | zero =>
    rw [hpool, List.take_zero, List.map_eq_nil_iff] at hwalk
    subst hwalk
    refine .inl ⟨rfl, hsize.trans hpool, ?_⟩
    funext t
    exact hhanded.jobs_of_notMem (by simp)
  | succ size =>
    rw [hpool, List.take_succ_cons, List.take_nil] at hwalk
    obtain ⟨⟨t, r⟩, rfl, hr⟩ := List.map_eq_singleton_iff.mp hwalk
    obtain rfl : r = trigger := hr
    refine .inr ⟨hsize.trans hpool, t, hhanded.jobs_free (by simp) (List.mem_singleton_self _), ?_⟩
    funext t'
    rcases eq_or_ne t' t with rfl | htt
    · rw [Function.update_self]
      exact hhanded.jobs_of_mem (List.mem_singleton_self (t', r))
    · rw [Function.update_of_ne htt]
      exact hhanded.jobs_of_notMem (by simpa using htt)

omit [DecidableEq R] in
/-- Of the events raised in a tick, as many as there are free tasks get one, in order. -/
theorem Works.raiseOneshots {es : List TimerEvent} (h : k.Works c place)
    (hsubs : k.Subscribes subs) (hone : ∀ e ∈ es, ∃ r, subs (.mTimerConnections e) = [r])
    (hnodup : es.Nodup) (hcarried : Carried (k.tasks.jobs place) carrier)
    (hnone : ∀ e ∈ es, carrier e = none) (hcall : k.raiseAll c es = .ok k') :
    ∃ place' carrier', k'.Works c place' ∧ Carried (k'.tasks.jobs place') carrier' ∧
      (∀ e ∉ es, carrier' e = carrier e) ∧
      (∀ i e, es[i]? = some e →
        (carrier' e ≠ none ↔ i < (k.tasks.queues .pEventTaskPoolQueue).pSize)) ∧
      k' = { k with tasks := k'.tasks } := by
  induction es generalizing k place carrier with
  | nil =>
    obtain rfl : k = k' := by simpa [Kernel.raiseAll] using hcall
    exact ⟨place, carrier, h, hcarried, fun _ _ => rfl, by simp, rfl⟩
  | cons e es ih =>
    obtain ⟨s, hs, hrest⟩ := Exec.bind_eq_ok.mp hcall
    obtain ⟨he, hes⟩ := List.nodup_cons.mp hnodup
    obtain ⟨trigger, htrigger⟩ := hone e (by simp)
    obtain ⟨place₁, h₁, hgiven⟩ := h.raiseOneshot hsubs htrigger hs
    have hone' : ∀ e' ∈ es, ∃ r, subs (.mTimerConnections e') = [r] :=
      fun e' he' => hone e' (List.mem_cons_of_mem _ he')
    rcases hgiven with ⟨hpool, hpool', hjobs⟩ | ⟨hpool, t, ht, hjobs⟩
    · obtain ⟨place', carrier', h', hcarried', hother, hgiven, heq⟩ := ih h₁ hsubs hone' hes
        (hjobs ▸ hcarried) (fun e' he' => hnone e' (List.mem_cons_of_mem _ he')) hrest
      refine ⟨place', carrier', h', hcarried', fun e' he' => ?_, fun i e' hi => ?_, by rw [heq]⟩
      · exact hother e' fun hmem => he' (List.mem_cons_of_mem _ hmem)
      · rw [hpool]
        cases i with
        | zero =>
          obtain rfl := Option.some.inj hi
          simp [hother e he, hnone e]
        | succ i =>
          have hnot := hgiven i e' hi
          rw [show (s.tasks.queues .pEventTaskPoolQueue).pSize = 0 from hpool'] at hnot
          simpa using hnot
    · have hcarried₁ : Carried (s.tasks.jobs place₁) (Function.update carrier e (some t)) := by
        rw [hjobs]
        exact hcarried.give ht (hnone e (by simp)) rfl
      obtain ⟨place', carrier', h', hcarried', hother, hgiven, heq⟩ := ih h₁ hsubs hone' hes
        hcarried₁ (fun e' he' => by
          rw [Function.update_of_ne (ne_of_mem_of_not_mem he' he)]
          exact hnone e' (List.mem_cons_of_mem _ he')) hrest
      refine ⟨place', carrier', h', hcarried', fun e' he' => ?_, fun i e' hi => ?_, by rw [heq]⟩
      · rw [List.mem_cons, not_or] at he'
        rw [hother e' he'.2, Function.update_of_ne he'.1]
      · rw [← hpool]
        cases i with
        | zero =>
          obtain rfl := Option.some.inj hi
          simp [hother e he]
        | succ i =>
          rw [hgiven i e' hi, Nat.succ_lt_succ_iff]

omit [DecidableEq R] in
theorem raiseAll_append {es es' : List TimerEvent} :
    k.raiseAll c (es ++ es') = k.raiseAll c es >>= fun k => k.raiseAll c es' := by
  induction es generalizing k with
  | nil => rfl
  | cons e es ih =>
    simp only [List.cons_append, Kernel.raiseAll, ih]
    cases k.machine.system.eventTriggered c.program (.mTimerConnections e) 0 <;> rfl

end Kernel

/-! ## Calls -/

/-- The queues of the oneshot events. -/
def TimerQueue.IsOneshot : TimerQueue → Prop
  | .mOneshotQueue | .mOneshotEventPool => True
  | _ => False

def Event.IsOneshot : Event m S → Prop
  | .mTimerConnections e => e.val < cTimerPoolSize
  | _ => False

/-- The call leaves subscribing to the oneshot events and raising them to the timer. -/
def KernelOp.SparesOneshots : KernelOp n m S R → Prop
  | .scheduler (.eventTriggered event _) => ¬ event.IsOneshot
  | .scheduler (.interruptEventTriggered event _) => ¬ event.IsOneshot
  | .subscribeEvent event _ => ¬ event.IsOneshot
  | .unsubscribeEvent event _ => ¬ event.IsOneshot
  | _ => True

/-- There are enough free tasks for the oneshot events that are due. -/
def Kernel.EnoughTasks (k : Kernel n m S R) : KernelOp n m S R → Prop
  | .handleTick _ _ _ =>
    k.timer.dueOneshots.length ≤ (k.tasks.queues .pEventTaskPoolQueue).pSize
  | _ => True

namespace Kernel

variable [DecidableEq R] [Fintype R] {c : Configuration O S R} {k k' : Kernel n m S R}
  {subs : Event m S → List R} {place : Task → Place n} {loc : TimerEvent → Option TimerQueue}
  {carrier : TimerEvent → Option Task} {e : TimerEvent}

/-! ## The invariant -/

/-- Where the timer events are. -/
structure Tracks (c : Configuration O S R) (k : Kernel n m S R) (place : Task → Place n)
    (loc : TimerEvent → Option TimerQueue) (carrier : TimerEvent → Option Task) : Prop where
  works : k.Works c place
  located : k.timer.Located loc
  carried : Carried (k.tasks.jobs place) carrier

/-- Every oneshot event is in one of its queues or has a task. In the pool it has no subscriber, and
in the queue it has one. -/
structure Kept (c : Configuration O S R) (k : Kernel n m S R) (subs : Event m S → List R)
    (place : Task → Place n) (loc : TimerEvent → Option TimerQueue)
    (carrier : TimerEvent → Option Task) : Prop extends Tracks c k place loc carrier where
  subscribes : k.Subscribes subs
  type : ∀ e : TimerEvent, e.val < cTimerPoolSize → k.timer.mTimerEventType e = .oneshot
  half : ∀ e q, loc e = some q → (q.IsOneshot ↔ e.val < cTimerPoolSize)
  free : ∀ e, loc e = some .mOneshotEventPool → subs (.mTimerConnections e) = []
  queued : ∀ e, loc e = some .mOneshotQueue → ∃ r, subs (.mTimerConnections e) = [r]
  one : ∀ e : TimerEvent, e.val < cTimerPoolSize → (loc e = none ↔ carrier e ≠ none)

/-- What is due in a tick leaves the queue, and gets tasks as far as there are any. -/
theorem Kept.tick {oneshots periodics : List TimerEvent} {underflow : Bool} {t : GenericTimer R}
    (h : k.Kept c subs place loc carrier)
    (hcall : GenericTimer.Step k.timer (.handleTick oneshots periodics underflow) t)
    (hraise : { k with timer := t }.raiseAll c (oneshots ++ periodics) = .ok k') :
    ∃ place' carrier',
      k'.Tracks c place' (fun e => if e ∈ oneshots then none else loc e) carrier' ∧
      oneshots = k.timer.dueOneshots ∧ (∀ e ∈ oneshots, loc e = some .mOneshotQueue) ∧
      (∀ e ∉ oneshots, carrier' e = carrier e) ∧
      (∀ i e, oneshots[i]? = some e →
        (carrier' e ≠ none ↔ i < (k.tasks.queues .pEventTaskPoolQueue).pSize)) ∧
      k' = { k with tasks := k'.tasks, timer := t } ∧
      t.mTimerEventType = k.timer.mTimerEventType := by
  have hsub := hcall.subscribers
  cases hcall with
  | handleTick hcall =>
    obtain ⟨hdue, hnodup, hfrom, hfrom', hloc, htype⟩ := h.located.handleTick hcall
    have htimer : { k with timer := t }.Works c place := h.works.congr rfl rfl rfl rfl
    have hsubs : { k with timer := t }.Subscribes subs := by
      rw [Subscribes, subscribers_same hsub, hsub.links]
      exact h.subscribes
    rw [raiseAll_append] at hraise
    obtain ⟨k₁, hraise₁, hraise₂⟩ := Exec.bind_eq_ok.mp hraise
    have hnone : ∀ e ∈ oneshots, carrier e = none := by
      intro e he
      have hq := hfrom e he
      by_contra hne
      rw [← ne_eq, ← h.one e ((h.half e _ hq).mp trivial), hq] at hne
      cases hne
    obtain ⟨place₁, carrier₁, h₁, hcarried₁, hother, hgiven, heq₁⟩ := htimer.raiseOneshots hsubs
      (fun e he => h.queued e (hfrom e he)) hnodup h.carried hnone hraise₁
    obtain ⟨place₂, h₂, hadds, -, heq₂⟩ := h₁.raiseAll hraise₂
    refine ⟨place₂, carrier₁, ⟨h₂, ?_, ?_⟩, hdue, hfrom, hother, hgiven, ?_, htype⟩
    · rw [heq₂, heq₁]
      exact hloc
    · refine hcarried₁.adds hadds fun e he hraised => ?_
      obtain ⟨x, hx, hex⟩ := hraised
      obtain rfl := Event.mTimerConnections.inj hex
      exact (h.half e _ (hfrom' e hx)).mpr he
    · rw [heq₂, heq₁]

/-- A tick with enough free tasks keeps all events. -/
theorem Kept.handleTick {oneshots periodics : List TimerEvent} {underflow : Bool}
    {t : GenericTimer R} (h : k.Kept c subs place loc carrier)
    (hcall : GenericTimer.Step k.timer (.handleTick oneshots periodics underflow) t)
    (hraise : { k with timer := t }.raiseAll c (oneshots ++ periodics) = .ok k')
    (henough : k.timer.dueOneshots.length ≤ (k.tasks.queues .pEventTaskPoolQueue).pSize) :
    ∃ place' loc' carrier', k'.Kept c subs place' loc' carrier' := by
  have hsub := hcall.subscribers
  obtain ⟨place', carrier', htracks, hdue, hfrom, hother, hgiven, heq, htype⟩ :=
    h.tick hcall hraise
  have hkeep : ∀ {e q}, (if e ∈ oneshots then none else loc e) = some q → loc e = some q := by
    intro e q hq
    split at hq
    · cases hq
    · exact hq
  refine ⟨place', _, carrier', htracks, ?_, ?_, ?_, ?_, ?_, ?_⟩
  · have hlists : ({ k with tasks := k'.tasks, timer := t } : Kernel n m S R).subscribers =
        k.subscribers := subscribers_same hsub
    rw [heq, Subscribes, hlists, hsub.links]
    exact h.subscribes
  · intro e he
    rw [heq]
    exact htype ▸ h.type e he
  · exact fun e q hq => h.half e q (hkeep hq)
  · exact fun e hq => h.free e (hkeep hq)
  · exact fun e hq => h.queued e (hkeep hq)
  · intro e he
    split
    · next hin =>
      obtain ⟨i, hi⟩ := List.mem_iff_getElem?.mp hin
      have hlt : i < oneshots.length := (List.getElem?_eq_some_iff.mp hi).1
      rw [hdue] at hlt
      exact iff_of_true rfl ((hgiven i e hi).mpr (hlt.trans_le henough))
    · next hin => rw [hother e hin, h.one e he]

variable [DecidableEq S]

omit [DecidableEq R] [Fintype R] in
/-- An event goes from one queue to another of its half. -/
theorem Kept.relocate {q q' : TimerQueue} {l : List R} {t : GenericTimer R}
    (h : k.Kept c subs place loc carrier) (hfrom : loc e = some q)
    (hhalf : q'.IsOneshot ↔ q.IsOneshot) (hloc : t.Located (Function.update loc e (some q')))
    (hsubs : { k with timer := t }.Subscribes (Function.update subs (.mTimerConnections e) l))
    (htype : ∀ e : TimerEvent, e.val < cTimerPoolSize → t.mTimerEventType e = .oneshot)
    (hfree : q' = .mOneshotEventPool → l = []) (hqueued : q' = .mOneshotQueue → ∃ r, l = [r]) :
    { k with timer := t }.Kept c (Function.update subs (.mTimerConnections e) l) place
      (Function.update loc e (some q')) carrier := by
  have hsame : ∀ {e'}, e' ≠ e → Function.update subs (.mTimerConnections e) l
      (.mTimerConnections e') = subs (.mTimerConnections e') :=
    fun hne => Function.update_of_ne (fun heq => hne (Event.mTimerConnections.inj heq)) _ _
  refine ⟨⟨h.works.congr rfl rfl rfl rfl, hloc, h.carried⟩, hsubs, htype, fun e' p hp => ?_,
    fun e' hp => ?_, fun e' hp => ?_, fun e' he' => ?_⟩
  · by_cases hee : e' = e
    · subst hee
      rw [Function.update_self] at hp
      obtain rfl := Option.some.inj hp
      rw [hhalf]
      exact h.half e' q hfrom
    · rw [Function.update_of_ne hee] at hp
      exact h.half e' p hp
  · by_cases hee : e' = e
    · subst hee
      rw [Function.update_self] at hp ⊢
      exact hfree (Option.some.inj hp)
    · rw [Function.update_of_ne hee] at hp
      rw [hsame hee]
      exact h.free e' hp
  · by_cases hee : e' = e
    · subst hee
      rw [Function.update_self] at hp ⊢
      exact hqueued (Option.some.inj hp)
    · rw [Function.update_of_ne hee] at hp
      rw [hsame hee]
      exact h.queued e' hp
  · rw [← h.one e' he']
    by_cases hee : e' = e
    · subst hee
      simp [hfrom]
    · rw [Function.update_of_ne hee]

/-- The timer sets or cancels an event. -/
theorem Kept.timer {label : GenericTimer.Label R} {t : GenericTimer R}
    (h : k.Kept c subs place loc carrier) (hsets : label.Sets)
    (hcall : GenericTimer.Step k.timer label t)
    (hsubs : { k with timer := t }.Subscribes
      ((.timer label : KernelOp n m S R).change.apply subs)) :
    ∃ loc', { k with timer := t }.Kept c
      ((.timer label : KernelOp n m S R).change.apply subs) place loc' carrier := by
  obtain ⟨hfrom, hloc, htype⟩ := h.located.step hcall
  have hworks : { k with timer := t }.Works c place := h.works.congr rfl rfl rfl rfl
  cases label with
  | setOneshotEvent trigger delay event underflow =>
    cases event with
    | none =>
      exact ⟨loc, ⟨hworks, hloc, h.carried⟩, hsubs, fun e he => htype ▸ h.type e he, h.half,
        h.free, h.queued, h.one⟩
    | some e =>
      have hnew : (if trigger ∈ subs (.mTimerConnections e) then subs (.mTimerConnections e)
          else subs (.mTimerConnections e) ++ [trigger]) = [trigger] := by
        simp [h.free e hfrom]
      refine ⟨_, h.relocate hfrom (by simp [TimerQueue.IsOneshot]) hloc hsubs (fun e' he' => ?_)
        (by simp) fun _ => ⟨trigger, hnew⟩⟩
      rw [htype]
      by_cases hee : e' = e
      · subst hee
        exact Function.update_self ..
      · exact (Function.update_of_ne hee ..).trans (h.type e' he')
  | setPeriodicEvent trigger interval event =>
    cases event with
    | none =>
      exact ⟨loc, ⟨hworks, hloc, h.carried⟩, hsubs, fun e he => htype ▸ h.type e he, h.half,
        h.free, h.queued, h.one⟩
    | some e =>
      refine ⟨_, h.relocate hfrom (by simp [TimerQueue.IsOneshot]) hloc hsubs (fun e' he' => ?_)
        (by simp) (by simp)⟩
      have hee : e' ≠ e := by
        rintro rfl
        exact (h.half e' _ hfrom).mpr he'
      rw [htype]
      exact (Function.update_of_ne hee ..).trans (h.type e' he')
  | cancelOneshotTimerEvent e =>
    exact ⟨_, h.relocate hfrom (by simp [TimerQueue.IsOneshot]) hloc hsubs
      (fun e' he' => htype ▸ h.type e' he') (fun _ => rfl) (by simp)⟩
  | cancelPeriodicTimerEvent e =>
    exact ⟨_, h.relocate hfrom (by simp [TimerQueue.IsOneshot]) hloc hsubs
      (fun e' he' => htype ▸ h.type e' he') (fun _ => rfl) (by simp)⟩
  | returnOneshotEventToPool e => exact hsets.elim
  | handleTick oneshots periodics underflow => exact hsets.elim

omit [DecidableEq R] [Fintype R] [DecidableEq S] in
theorem asOneshot_eq_some {event : Event m S} (h : k.asOneshot c event = some e) :
    event = .mTimerConnections e ∧ e.val < cTimerPoolSize := by
  cases event with
  | mTimerConnections e' =>
    rw [asOneshot] at h
    split at h
    · next htype =>
      obtain rfl := Option.some.inj h
      refine ⟨rfl, ?_⟩
      by_contra hlt
      simp [Event.pType, hlt] at htype
    · cases h
  | _ => cases h

/-- The end of a task gives a oneshot event back. -/
theorem Kept.eventTaskFinished {cpu : Fin n} {returned : Option TimerEvent}
    (h : k.Kept c subs place loc carrier) (hphase : k.phase cpu = .executing)
    (hcall : k.eventTaskFinished c cpu = .ok (returned, k'))
    (hsubs : { k' with phase := Function.update k.phase cpu .dispatching }.Subscribes
      ((.eventTaskFinished cpu returned : KernelOp n m S R).change.apply subs)) :
    ∃ place' loc' carrier', { k' with phase := Function.update k.phase cpu .dispatching }.Kept c
      ((.eventTaskFinished cpu returned : KernelOp n m S R).change.apply subs)
      place' loc' carrier' := by
  obtain ⟨t, job, place', -, hjob, hworks, hjobs, -, hreturned, heffect⟩ :=
    h.works.eventTaskFinished hphase hcall
  cases returned with
  | none =>
    -- the event was not a oneshot event
    have hnot : ∀ e : TimerEvent, e.val < cTimerPoolSize → job.event ≠ .mTimerConnections e := by
      intro e he hevent
      simp [asOneshot, hevent, Event.pType, he, h.type e he] at hreturned
    have htimer : k'.timer = k.timer := by
      rw [show k' = { k with tasks := k'.tasks } from heffect]
    have hcarried : Carried (k'.tasks.jobs place') carrier := by
      rw [hjobs]
      exact h.carried.done hjob (fun e he hevent => (hnot e he hevent).elim) fun _ _ => rfl
    exact ⟨place', loc, carrier, ⟨hworks, htimer ▸ h.located, hcarried⟩, hsubs,
      fun e he => htimer ▸ h.type e he, h.half, h.free, h.queued, h.one⟩
  | some e =>
    obtain ⟨timer, htimer, heq⟩ := heffect
    obtain ⟨hevent, he⟩ := asOneshot_eq_some hreturned.symm
    have hcarrier : carrier e = some t := (h.carried e he t).mp ⟨job, hjob, hevent⟩
    have hfrom : loc e = none := (h.one e he).mpr (by simp [hcarrier])
    obtain ⟨hloc, htype⟩ := h.located.returnOneshotEventToPool hfrom htimer
    have hk : k'.timer = timer := by rw [heq]
    have hcarried : Carried (k'.tasks.jobs place') (Function.update carrier e none) := by
      rw [hjobs]
      refine h.carried.done hjob (fun e' _ hevent' => ?_) fun e' hevent' => ?_
      · obtain rfl := Event.mTimerConnections.inj (hevent.symm.trans hevent')
        exact Function.update_self ..
      · refine Function.update_of_ne ?_ ..
        rintro rfl
        exact hevent' hevent
    have hsame : ∀ {e'}, e' ≠ e → Function.update subs (.mTimerConnections e) []
        (.mTimerConnections e') = subs (.mTimerConnections e') :=
      fun hne => Function.update_of_ne (fun heq => hne (Event.mTimerConnections.inj heq)) _ _
    refine ⟨place', Function.update loc e (some .mOneshotEventPool), Function.update carrier e none,
      ⟨hworks, hk ▸ hloc, hcarried⟩, hsubs, fun e' he' => ?_, fun e' q hq => ?_, fun e' hq => ?_,
      fun e' hq => ?_, fun e' he' => ?_⟩
    · show k'.timer.mTimerEventType e' = .oneshot
      rw [hk, htype]
      exact h.type e' he'
    · by_cases hee : e' = e
      · subst hee
        rw [Function.update_self] at hq
        obtain rfl := Option.some.inj hq
        exact iff_of_true trivial he
      · rw [Function.update_of_ne hee] at hq
        exact h.half e' q hq
    · by_cases hee : e' = e
      · subst hee
        exact Function.update_self ..
      · rw [Function.update_of_ne hee] at hq
        exact (hsame hee).trans (h.free e' hq)
    · by_cases hee : e' = e
      · subst hee
        rw [Function.update_self] at hq
        cases hq
      · rw [Function.update_of_ne hee] at hq
        obtain ⟨r, hr⟩ := h.queued e' hq
        exact ⟨r, (hsame hee).trans hr⟩
    · by_cases hee : e' = e
      · subst hee
        simp
      · rw [Function.update_of_ne hee, Function.update_of_ne hee]
        exact h.one e' he'

omit [DecidableEq R] [Fintype R] in
/-- The subscriptions to another event have changed. -/
theorem Kept.setSubscribers {event : Event m S} {links : QueueElements R} {queue : Queue R}
    {l : List R} (h : k.Kept c subs place loc carrier) (hevent : ¬ event.IsOneshot)
    (hsubs : (k.setSubscribers event links queue).Subscribes (Function.update subs event l)) :
    (k.setSubscribers event links queue).Kept c (Function.update subs event l) place loc
      carrier := by
  have hsame : ∀ {e q}, loc e = some q → q.IsOneshot →
      Function.update subs event l (.mTimerConnections e) = subs (.mTimerConnections e) := by
    intro e q hq hone
    refine Function.update_of_ne ?_ ..
    rintro rfl
    exact hevent ((h.half e q hq).mp hone)
  refine ⟨⟨h.works.setSubscribers, ?_, ?_⟩, hsubs, ?_, h.half, fun e hq => ?_, fun e hq => ?_, h.one⟩
  · cases event <;> exact h.located
  · cases event <;> exact h.carried
  · cases event <;> exact h.type
  · rw [hsame hq trivial]
    exact h.free e hq
  · rw [hsame hq trivial]
    exact h.queued e hq

/-- Every call keeps the events, if ticks find enough free tasks. -/
theorem Kept.step [DecidableEq O] {op : KernelOp n m S R} (h : k.Kept c subs place loc carrier)
    (hstep : KernelStep c k op k') (hop : op.SparesOneshots) (henough : k.EnoughTasks op)
    (halone : SharedAlone (op.change.apply subs)) :
    ∃ place' loc' carrier', k'.Kept c (op.change.apply subs) place' loc' carrier' := by
  have hsubs := h.subscribes.changed (KernelStep.changed h.works hstep) halone
  cases hstep with
  | @scheduler op a hkeeps hcall =>
    obtain ⟨place', hworks, hadds, -⟩ := Working.schedulerStep h.works hkeeps hcall
    refine ⟨place', loc, carrier, ⟨hworks.congr rfl rfl rfl rfl, h.located, ?_⟩, hsubs, h.type,
      h.half, h.free, h.queued, h.one⟩
    refine h.carried.adds hadds fun e he hraised => ?_
    cases op with
    | eventTriggered event arg =>
      obtain rfl := Option.some.inj hraised
      exact hop he
    | interruptEventTriggered event arg =>
      obtain rfl := Option.some.inj hraised
      exact hop he
    | callOSCTrigger trigger arg => cases Option.some.inj hraised
    | _ => cases hraised
  | eventTaskFinished hphase hcall => exact h.eventTaskFinished hphase hcall hsubs
  | subscribeEvent hcall =>
    obtain ⟨⟨links, queue⟩, -, hk⟩ := Exec.bind_eq_ok.mp hcall
    obtain rfl := Except.ok.inj hk
    exact ⟨place, loc, carrier, h.setSubscribers hop hsubs⟩
  | unsubscribeEvent hcall =>
    obtain ⟨⟨links, queue⟩, -, hk⟩ := Exec.bind_eq_ok.mp hcall
    obtain rfl := Except.ok.inj hk
    exact ⟨place, loc, carrier, h.setSubscribers hop hsubs⟩
  | timer hsets hcall =>
    obtain ⟨loc', hkept⟩ := h.timer hsets hcall hsubs
    exact ⟨place, loc', carrier, hkept⟩
  | handleTick hcall hraise => exact h.handleTick hcall hraise henough

/-! ## Runs -/

end Kernel

/-- Where a oneshot event can be found: at a position of one of its queues, or as the event of a
task. -/
inductive EventPosition
  | mOneshotEventPool (pos : Nat)
  | mOneshotQueue (pos : Nat)
  | eventTask (t : Task)

namespace Kernel

def EventAt (k : Kernel n m S R) (e : TimerEvent) : EventPosition → Prop
  | .mOneshotEventPool pos => k.timer.get .mOneshotEventPool pos = some e
  | .mOneshotQueue pos => k.timer.get .mOneshotQueue pos = some e
  | .eventTask t => k.Busy t ∧ (k.tasks.eventTask t).event = some (.mTimerConnections e)

section
variable {c : Configuration O S R} {k : Kernel n m S R} {place : Task → Place n}
  {loc : TimerEvent → Option TimerQueue} {carrier : TimerEvent → Option Task} {e : TimerEvent}

theorem Tracks.eventTask_iff (h : k.Tracks c place loc carrier) (he : e.val < cTimerPoolSize)
    (t : Task) : k.EventAt e (.eventTask t) ↔ carrier e = some t := by
  rw [← h.carried e he t, EventAt]
  constructor
  · rintro ⟨hbusy, hevent⟩
    obtain ⟨job, hjob⟩ := (h.works.busy_iff t).mp hbusy
    have hsame := ((h.works.jobs_iff t job).mp hjob).2.1
    exact ⟨job, hjob, Option.some.inj (hsame.symm.trans hevent)⟩
  · rintro ⟨job, hjob, hevent⟩
    obtain ⟨hbusy, hsame, -⟩ := (h.works.jobs_iff t job).mp hjob
    exact ⟨hbusy, hevent ▸ hsame⟩

/-- An event with neither queue nor task is lost. -/
theorem Tracks.not_eventAt (h : k.Tracks c place loc carrier) (he : e.val < cTimerPoolSize)
    (hloc : loc e = none) (hcarrier : carrier e = none) (p : EventPosition) : ¬ k.EventAt e p := by
  intro hp
  cases p with
  | mOneshotEventPool pos =>
    rw [h.located.get.1.mpr ⟨pos, hp⟩] at hloc
    cases hloc
  | mOneshotQueue pos =>
    rw [h.located.get.1.mpr ⟨pos, hp⟩] at hloc
    cases hloc
  | eventTask t =>
    rw [(h.eventTask_iff he t).mp hp] at hcarrier
    cases hcarrier

/-- An event of the pool or of the queue that has no task, or an event that has one and is in
neither, is at one position. -/
theorem Tracks.existsUnique_position (h : k.Tracks c place loc carrier)
    (he : e.val < cTimerPoolSize) (hhalf : ∀ q, loc e = some q → q.IsOneshot)
    (hone : loc e = none ↔ carrier e ≠ none) : ∃! p, k.EventAt e p := by
  have hpool : ∀ {pos}, k.EventAt e (.mOneshotEventPool pos) → loc e = some .mOneshotEventPool :=
    fun hp => h.located.get.1.mpr ⟨_, hp⟩
  have hqueue : ∀ {pos}, k.EventAt e (.mOneshotQueue pos) → loc e = some .mOneshotQueue :=
    fun hp => h.located.get.1.mpr ⟨_, hp⟩
  have htask : ∀ {t}, k.EventAt e (.eventTask t) → loc e = none ∧ carrier e = some t := by
    intro t hp
    have hcarrier := (h.eventTask_iff he t).mp hp
    exact ⟨hone.mpr (by simp [hcarrier]), hcarrier⟩
  cases hloc : loc e with
  | none =>
    obtain ⟨t, ht⟩ := Option.ne_none_iff_exists'.mp (hone.mp hloc)
    refine ⟨.eventTask t, (h.eventTask_iff he t).mpr ht, fun p hp => ?_⟩
    cases p with
    | mOneshotEventPool pos => simp [hpool hp] at hloc
    | mOneshotQueue pos => simp [hqueue hp] at hloc
    | eventTask t' => rw [Option.some.inj ((htask hp).2.symm.trans ht)]
  | some q =>
    have hq := hhalf q hloc
    cases q with
    | mOneshotEventPool =>
      obtain ⟨pos, hpos⟩ := h.located.get.1.mp hloc
      refine ⟨.mOneshotEventPool pos, hpos, fun p hp => ?_⟩
      cases p with
      | mOneshotEventPool pos' => rw [h.located.get.2 pos' pos hp hpos]
      | mOneshotQueue pos' => simp [hqueue hp] at hloc
      | eventTask t => simp [(htask hp).1] at hloc
    | mOneshotQueue =>
      obtain ⟨pos, hpos⟩ := h.located.get.1.mp hloc
      refine ⟨.mOneshotQueue pos, hpos, fun p hp => ?_⟩
      cases p with
      | mOneshotEventPool pos' => simp [hpool hp] at hloc
      | mOneshotQueue pos' => rw [h.located.get.2 pos' pos hp hpos]
      | eventTask t => simp [(htask hp).1] at hloc
    | mPeriodicQueue => exact hq.elim
    | mPeriodicEventPool => exact hq.elim

end

section
variable [DecidableEq O] [DecidableEq S] [DecidableEq R] [Fintype R] {c : Configuration O S R}
  {k₀ k k' : Kernel n m S R} {mTimerInterval : Nat} {ls : List (KernelOp n m S R)}
  {subs : Event m S → List R} {place : Task → Place n} {loc : TimerEvent → Option TimerQueue}
  {carrier : TimerEvent → Option Task} {e : TimerEvent}

omit [DecidableEq O] [DecidableEq S] [DecidableEq R] [Fintype R] in
theorem Kept.existsUnique_position (h : k.Kept c subs place loc carrier)
    (he : e.val < cTimerPoolSize) : ∃! p, k.EventAt e p :=
  h.toTracks.existsUnique_position he (fun q hq => (h.half e q hq).mpr he) (h.one e he)

omit [DecidableEq O] [DecidableEq S] [DecidableEq R] [Fintype R] in
/-- After the constructors all oneshot events are in the free pool. -/
theorem Kept.boot (c : Configuration O S R) (hboot : boot mTimerInterval = .ok k) :
    (k : Kernel n m S R).Kept c (fun _ => []) (fun t => .queue t.home)
      (fun e => some (if e.val < cTimerPoolSize then .mOneshotEventPool else .mPeriodicEventPool))
      fun _ => none := by
  obtain ⟨k₁, hok, hworks, -, -, hnew, -⟩ := boot_spec (n := n) (m := m) c mTimerInterval
  obtain rfl := Except.ok.inj (hok.symm.trans hboot)
  have hhome : ∀ t : Task, ¬ (.queue t.home : Place n).Pending := by
    intro t
    cases t <;> exact id
  refine ⟨⟨hworks, GenericTimer.new_located hnew, fun e he t => ?_⟩, .boot c hboot, fun e _ => ?_,
    fun e q hq => ?_, fun _ _ => rfl, fun e hq => ?_, by simp⟩
  · simp [Carries, Tasks.jobs, hhome]
  · exact (GenericTimer.new_fields hnew).2 e
  · obtain rfl := Option.some.inj hq
    split <;> simp [TimerQueue.IsOneshot, *]
  · split at hq <;> cases Option.some.inj hq

/-- The events of the runs in which every tick finds enough free tasks. -/
theorem kept_run (hboot : boot mTimerInterval = .ok k₀)
    (hrun : Run (fun k op k' => KernelStep c k op k' ∧ k.EnoughTasks op) k₀ ls k)
    (hls : ∀ op ∈ ls, op.SparesOneshots)
    (halone : ∀ ms, ms <+: ls → SharedAlone (KernelOp.subscribed ms)) :
    ∃ place loc carrier, k.Kept c (KernelOp.subscribed ls) place loc carrier := by
  induction hrun with
  | nil => exact ⟨_, _, _, .boot c hboot⟩
  | @snoc ls k op k' hrun hstep ih =>
    obtain ⟨place, loc, carrier, h⟩ := ih (fun op' hop' => hls op' (by simp [hop'])) fun ms hms =>
      halone ms (hms.trans (List.prefix_append ls [op]))
    have hlast := halone _ List.prefix_rfl
    rw [KernelOp.subscribed_snoc] at hlast ⊢
    exact h.step hstep.1 (hls op (by simp)) hstep.2 hlast

/-- A tick keeps all oneshot events exactly if there are tasks for those that are due. -/
theorem Kept.handleTick_iff {oneshots periodics : List TimerEvent} {underflow : Bool}
    (h : k.Kept c subs place loc carrier)
    (hstep : KernelStep c k (.handleTick oneshots periodics underflow) k') :
    (∀ e : TimerEvent, e.val < cTimerPoolSize → ∃! p, k'.EventAt e p) ↔
      k.timer.dueOneshots.length ≤ (k.tasks.queues .pEventTaskPoolQueue).pSize := by
  cases hstep with
  | handleTick hcall hraise =>
    constructor
    · intro hall
      obtain ⟨place', carrier', htracks, hdue, hfrom, -, hgiven, -⟩ := h.tick hcall hraise
      by_contra hlt
      rw [not_le, ← hdue] at hlt
      -- the first event for which there is no task
      have hi := List.getElem?_eq_getElem hlt
      have hmem := List.mem_of_getElem? hi
      have he := (h.half _ _ (hfrom _ hmem)).mp trivial
      have hlost := (hgiven _ _ hi).not.mpr (lt_irrefl _)
      obtain ⟨p, hp, -⟩ := hall _ he
      exact htracks.not_eventAt he (by simp [hmem]) (not_not.mp hlost) p hp
    · intro henough e he
      obtain ⟨place', loc', carrier', h'⟩ := h.handleTick hcall hraise henough
      exact h'.existsUnique_position he

/-- Over every run from the constructors on, as long as ticks find a free task for every oneshot
event that is due: every oneshot event is at exactly one position, of the free pool, of the queue, or
as the event of one task. The first tick that finds fewer loses one. -/
theorem timerEvent_conservation (hboot : boot mTimerInterval = .ok k₀)
    (hrun : Run (fun k op k' => KernelStep c k op k' ∧ k.EnoughTasks op) k₀ ls k)
    (hls : ∀ op ∈ ls, op.SparesOneshots)
    (halone : ∀ ms, ms <+: ls → SharedAlone (KernelOp.subscribed ms)) :
    (∀ e : TimerEvent, e.val < cTimerPoolSize → ∃! p, k.EventAt e p) ∧
      ∀ oneshots periodics underflow k',
        KernelStep c k (.handleTick oneshots periodics underflow) k' →
          ((∀ e : TimerEvent, e.val < cTimerPoolSize → ∃! p, k'.EventAt e p) ↔
            k.timer.dueOneshots.length ≤ (k.tasks.queues .pEventTaskPoolQueue).pSize) := by
  obtain ⟨place, loc, carrier, h⟩ := kept_run hboot hrun hls halone
  exact ⟨fun e he => h.existsUnique_position he, fun _ _ _ _ hstep => h.handleTick_iff hstep⟩

end

/-! ## One event -/

/-- A component with one trigger; the only event besides those of the timer is the dummy event. -/
def oneComponent : Configuration Unit Unit Unit where
  trigger _ := { pDestinationOSC := some (), pDeps := ⟨[none], DepArray.none_mem⟩, pPriority := 1 }
  pType _ := .dummyCallEvent
  pType_ne _ := dummyCallEvent_ne_timerEvent
  pDummyEvent := ()
  pDummyEvent_pType := rfl

/-- A oneshot event that is set for the next tick. -/
theorem setOneshotEvent_next {t : GenericTimer R} [DecidableEq R] [Fintype R] (trigger : R)
    (hnew : GenericTimer.new 1 = .ok t) : ∃ e t₁ t₂,
      GenericTimer.Step t (.setOneshotEvent trigger 1 (some e) false) t₁ ∧
      GenericTimer.Step t₁ (.handleTick [e] [] false) t₂ := by
  obtain ⟨t', lists, hok, hinterval, href⟩ := GenericTimer.new_refines (R := R) 1
  obtain rfl := Except.ok.inj (hok.symm.trans hnew)
  obtain ⟨e, pool, hpool⟩ := List.exists_cons_of_ne_nil
    (show GenericTimer.newAgenda.oneshotPool ≠ [] from List.cons_ne_nil _ _)
  obtain ⟨t₁, lists₁, hset, -, href₁⟩ := href.setOneshotEvent hpool trigger (show 1 < 2 ^ 32 by decide)
  have hinv := GenericTimer.newAgenda_inv.step (.setOneshot hpool (r := 1) (by decide))
  rw [hinterval] at href₁
  obtain ⟨t₂, lists₂, htick, -, -⟩ := href₁.handleTick hinv
  refine ⟨e, t₁, t₂, .setOneshotEvent (by decide) hset, .handleTick ?_⟩
  simpa [Agenda.firedOneshots, Agenda.firedPeriodics, Agenda.countedDown,
    GenericTimer.newAgenda] using htick

/-- The event is set, and will fire in the next tick. -/
theorem oneComponent_set : ∃ (k₀ k : Kernel 1 0 Unit Unit) (e : TimerEvent)
    (t : GenericTimer Unit), boot 1 = .ok k₀ ∧
    Run (fun k op k' => KernelStep oneComponent k op k' ∧ k.EnoughTasks op) k₀
      [.timer (.setOneshotEvent () 1 (some e) false)] k ∧
    (k.tasks.queues .pEventTaskPoolQueue).pSize = cEventTaskPoolSize ∧
    GenericTimer.Step k.timer (.handleTick [e] [] false) t := by
  obtain ⟨k₀, hboot, -, hsize, -, hnew, -⟩ := boot_spec (n := 1) (m := 0) oneComponent 1
  obtain ⟨e, t₁, t₂, hset, htick⟩ := setOneshotEvent_next () hnew
  exact ⟨k₀, { k₀ with timer := t₁ }, e, t₂, hboot, .single ⟨.timer trivial hset, trivial⟩, hsize,
    htick⟩

/-- Direct calls use up the free tasks. -/
theorem exhaust {k : Kernel 1 0 Unit Unit} {place : Task → Place 1} {size : Nat}
    (h : k.Works oneComponent place)
    (hsize : (k.tasks.queues .pEventTaskPoolQueue).pSize = size) :
    ∃ k', Run (fun k op k' => KernelStep oneComponent k op k' ∧ k.EnoughTasks op) k
        (List.replicate size (.scheduler (.callOSCTrigger () 0))) k' ∧
      (k'.tasks.queues .pEventTaskPoolQueue).pSize = 0 ∧ k'.timer = k.timer := by
  induction size generalizing k place with
  | zero => exact ⟨k, .nil, hsize, rfl⟩
  | succ size ih =>
    have hspec : (k.machine.system.callOSCTrigger oneComponent.program () 0).Sat False _ :=
      System.callOSCTrigger_spec h.placed h.hand
    obtain ⟨s, hcall, hgives⟩ := hspec.exists_eq_ok id
    rcases hgives with ⟨-, hzero⟩ | ⟨t, place', -, -, hgives, -⟩
    · exact absurd (hsize.symm.trans hzero) (Nat.succ_ne_zero size)
    · have hstep : KernelStep oneComponent k (.scheduler (.callOSCTrigger () 0))
          (k.withMachine ⟨s, k.phase⟩) := .scheduler trivial (.callOSCTrigger hcall)
      have hless : (s.tasks.queues .pEventTaskPoolQueue).pSize + 1 =
        (k.tasks.queues .pEventTaskPoolQueue).pSize := hgives.size
      obtain ⟨place₁, h₁⟩ := h.step hstep
      obtain ⟨k', hrun, hempty, htimer⟩ := ih h₁ (Nat.succ.inj (hless.trans hsize))
      exact ⟨k', run_cons_iff.mpr ⟨_, ⟨hstep, trivial⟩, hrun⟩, hempty, htimer⟩

theorem timerEvent_conservation_oneComponent :
    ∃ (k₀ k : Kernel 1 0 Unit Unit) (ls : List (KernelOp 1 0 Unit Unit)) (e : TimerEvent),
      boot 1 = .ok k₀ ∧ ls = [.timer (.setOneshotEvent () 1 (some e) false),
        .handleTick [e] [] false] ∧
      Run (fun k op k' => KernelStep oneComponent k op k' ∧ k.EnoughTasks op) k₀ ls k ∧
      (∀ e : TimerEvent, e.val < cTimerPoolSize → ∃! p, k.EventAt e p) ∧
      ∀ oneshots periodics underflow k',
        KernelStep oneComponent k (.handleTick oneshots periodics underflow) k' →
          ((∀ e : TimerEvent, e.val < cTimerPoolSize → ∃! p, k'.EventAt e p) ↔
            k.timer.dueOneshots.length ≤ (k.tasks.queues .pEventTaskPoolQueue).pSize) := by
  obtain ⟨k₀, k, e, t, hboot, hrun, hsize, htick⟩ := oneComponent_set
  obtain ⟨place, loc, carrier, hkept⟩ :=
    kept_run hboot hrun (by simp [KernelOp.SparesOneshots]) fun ms _ => KernelOp.subscribed_alone ms
  have hworks : { k with timer := t }.Works oneComponent place :=
    hkept.works.congr rfl rfl rfl rfl
  obtain ⟨k', hraise⟩ := hworks.raiseAll_ok [e]
  have hdue : k.timer.dueOneshots = [e] := by
    obtain ⟨-, -, -, hdue, -⟩ := hkept.tick htick hraise
    exact hdue.symm
  have henough : k.EnoughTasks (.handleTick [e] [] false) := by
    rw [EnoughTasks, hdue, hsize]
    exact show 1 ≤ cEventTaskPoolSize by decide
  have hrun' := hrun.snoc ⟨.handleTick htick hraise, henough⟩
  exact ⟨k₀, k', _, e, hboot, rfl, hrun', timerEvent_conservation hboot hrun'
    (by simp [KernelOp.SparesOneshots]) fun ms _ => KernelOp.subscribed_alone ms⟩

/-- The event is set for the next tick, but by then direct calls have taken all tasks. Nobody gives
the event back. -/
theorem timerEvent_lost :
    ∃ (k₀ k : Kernel 1 0 Unit Unit) (ls : List (KernelOp 1 0 Unit Unit)) (e : TimerEvent),
      boot 1 = .ok k₀ ∧ ls = [.timer (.setOneshotEvent () 1 (some e) false)] ++
        List.replicate cEventTaskPoolSize (.scheduler (.callOSCTrigger () 0)) ++
        [.handleTick [e] [] false] ∧
      Run (KernelStep oneComponent) k₀ ls k ∧ e.val < cTimerPoolSize ∧ ∀ p, ¬ k.EventAt e p := by
  obtain ⟨k₀, k, e, t, hboot, hrun, hsize, htick⟩ := oneComponent_set
  obtain ⟨place, hworks⟩ := exists_works hboot (hrun.mono fun h => h.1)
  obtain ⟨k₁, hcalls, hempty, htimer⟩ := exhaust hworks hsize
  have hrun₁ := hrun.append hcalls
  rw [← htimer] at htick
  obtain ⟨place₁, loc, carrier, hkept⟩ := kept_run hboot hrun₁
    (by simp [KernelOp.SparesOneshots]) fun ms _ => KernelOp.subscribed_alone ms
  have hworks₁ : { k₁ with timer := t }.Works oneComponent place₁ :=
    hkept.works.congr rfl rfl rfl rfl
  obtain ⟨k', hraise⟩ := hworks₁.raiseAll_ok [e]
  obtain ⟨place', carrier', htracks, -, hfrom, -, hgiven, -⟩ := hkept.tick htick hraise
  have he : e.val < cTimerPoolSize := (hkept.half e _ (hfrom e (by simp))).mp trivial
  have hnone : carrier' e = none := by
    have hiff := hgiven 0 e rfl
    rw [hempty] at hiff
    exact not_not.mp (hiff.not.mpr (Nat.not_lt_zero 0))
  exact ⟨k₀, k', _, e, hboot, rfl, (hrun₁.mono fun h => h.1).snoc (.handleTick htick hraise), he,
    htracks.not_eventAt he (by simp) hnone⟩

end Kernel

end CyPhOS
