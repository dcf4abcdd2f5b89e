import CyPhOS.EventHandling.EventHandler

/-! # Where the tasks are

`Placed s place` says where each task is: in a queue, active on a CPU, or in the hand of a call that
has taken it from one place and not yet put it into another. A task has one place because `place`
is a function; what has to be kept is that the pointers agree with it. `Linked` says so of the
queues, and `Linked.relink` is the one way in which a call changes them: it relinks one queue and
moves one task.

The assumption about how events are raised is the parameter `proviso`. Under it a task only handles
events whose type sends it back to the pool of its own array.
-/

namespace CyPhOS

variable {n : Nat} {O E R : Type}

inductive Place (n : Nat)
  | queue (q : TaskQueue n)
  | active (cpu : Fin n)
  | inHand
  deriving DecidableEq

/-- The task has an event to handle. -/
def Place.Pending : Place n → Prop
  | .queue (.mFifoQueue _) => True
  | .active _ => True
  | _ => False

/-- The pool that the constructor puts a task into. -/
def Task.home : Task → TaskQueue n
  | .pEventTasks _ => .pEventTaskPoolQueue
  | .pInterruptTasks _ => .pInterruptTaskPoolQueue

/-- The pool that `eventTaskFinished` puts a task into after an event. -/
def Program.returnPool (program : Program O E R) (event : E) : TaskQueue n :=
  if program.pType event = .interruptEvent then .pInterruptTaskPoolQueue else .pEventTaskPoolQueue

/-! ## Queues -/

/-- The queues are linked as `place` says. -/
def Linked (links : QueueElements Task) (queues : TaskQueue n → Queue Task)
    (place : Task → Place n) : Prop :=
  ∃ lists, Queue.Family links queues lists ∧ ∀ q t, t ∈ lists q ↔ place t = .queue q

section
variable {k k' : QueueElements Task} {queues : TaskQueue n → Queue Task} {place : Task → Place n}
  {lists : TaskQueue n → List Task} {q : TaskQueue n} {q' : Queue Task} {l' : List Task} {t : Task}
  {p : Place n}

/-- Relinking the queue `q` moves the task `t` to the place `p`. -/
theorem Linked.relink (hfam : Queue.Family k queues lists)
    (hmem : ∀ q t, t ∈ lists q ↔ place t = .queue q) (ht : ∀ j, place t = .queue j → j = q)
    (hp : ∀ j, p = .queue j → j = q) (hrep : q'.Rep k' l') (hagree : AgreeOff (t :: lists q) k k')
    (hself : t ∈ l' ↔ p = .queue q) (hother : ∀ a ≠ t, a ∈ l' ↔ a ∈ lists q) :
    Linked k' (Function.update queues q q') (Function.update place t p) := by
  have hsub : l' ⊆ t :: lists q := by
    intro a ha
    by_cases hat : a = t
    · simp [hat]
    · exact .tail t ((hother a hat).mp ha)
  refine ⟨Function.update lists q l', hfam.relink_cons (fun j hj => ht j ((hmem j t).mp hj)) hrep
    hsub hagree, fun j a => ?_⟩
  by_cases hj : j = q <;> by_cases hat : a = t
  · subst hj hat
    simpa using hself
  · subst hj
    rw [Function.update_self, Function.update_of_ne hat, hother a hat, hmem]
  · subst hat
    rw [Function.update_of_ne hj, Function.update_self, hmem]
    exact ⟨fun e => (hj (ht j e)).elim, fun e => (hj (hp j e)).elim⟩
  · rw [Function.update_of_ne hj, Function.update_of_ne hat, hmem]

/-- What `place` says of active tasks does not matter to the queues. -/
theorem Linked.congr {place' : Task → Place n} (h : Linked k queues place)
    (hplace : ∀ q t, place t = .queue q ↔ place' t = .queue q) : Linked k queues place' := by
  obtain ⟨lists, hfam, hmem⟩ := h
  exact ⟨lists, hfam, fun q t => (hmem q t).trans (hplace q t)⟩

/-- Taking the first task of a queue. -/
theorem Linked.dequeueFirst (h : Linked k queues place) (q : TaskQueue n) :
    (queues q).dequeueFirst k = .ok (none, k, queues q) ∧ (queues q).pSize = 0 ∨
      ∃ t k' q', (queues q).dequeueFirst k = .ok (some t, k', q') ∧ place t = .queue q ∧
        q'.pSize + 1 = (queues q).pSize ∧
        Linked k' (Function.update queues q q') (Function.update place t .inHand) := by
  obtain ⟨lists, hfam, hmem⟩ := h
  have hrep := hfam.rep q
  cases hl : lists q with
  | nil =>
    rw [hl] at hrep
    exact .inl ⟨hrep.dequeueFirst_nil, hrep.size⟩
  | cons t l =>
    rw [hl] at hrep
    obtain ⟨k', q', hok, hrep', hagree, -⟩ := hrep.dequeueFirst_cons
    have ht : place t = .queue q := (hmem q t).mp (by simp [hl])
    have hsize : q'.pSize + 1 = (queues q).pSize := by simp [hrep.size, hrep'.size]
    refine .inr ⟨t, k', q', hok, ht, hsize, Linked.relink hfam hmem (fun j hj => ?_) (by simp)
      hrep' (hagree.mono (by simp [hl])) ?_ fun a ha => by simp [hl, ha]⟩
    · rw [ht] at hj
      injection hj with hj
      exact hj.symm
    · simpa using (List.nodup_cons.mp hrep.nodup).1

/-- Putting a task that is in no queue into one, wherever in the list. -/
theorem Linked.insert {xs ys : List Task} (hfam : Queue.Family k queues lists)
    (hmem : ∀ q t, t ∈ lists q ↔ place t = .queue q) (ht : ∀ j, place t ≠ .queue j)
    (hrep : q'.Rep k' (xs ++ t :: ys)) (hlist : lists q = xs ++ ys)
    (hagree : AgreeOff (t :: lists q) k k') :
    Linked k' (Function.update queues q q') (Function.update place t (.queue q)) := by
  refine Linked.relink hfam hmem (fun j hj => (ht j hj).elim) (fun j hj => ?_) hrep hagree
    (by simp) fun a ha => by simp [hlist, ha]
  injection hj with hj
  exact hj.symm

theorem Linked.enqueueFast (h : Linked k queues place) (q : TaskQueue n)
    (ht : ∀ j, place t ≠ .queue j) : ∃ k' q', (queues q).enqueueFast k t = .ok (k', q') ∧
      Linked k' (Function.update queues q q') (Function.update place t (.queue q)) := by
  obtain ⟨lists, hfam, hmem⟩ := h
  have hnot : t ∉ lists q := fun hin => ht q ((hmem q t).mp hin)
  obtain ⟨k', q', hok, hrep, hagree⟩ := (hfam.rep q).enqueueFast hnot
  exact ⟨k', q', hok, Linked.insert hfam hmem ht hrep (by simp) hagree⟩

theorem Linked.enqueue {trigger : Task → Option (Trigger O)} (h : Linked k queues place)
    (q : TaskQueue n) (ht : ∀ j, place t ≠ .queue j) (htr : (trigger t).isSome)
    (hq : ∀ a, place a = .queue q → (trigger a).isSome) :
    ∃ k' q', EventPriorityQueue.enqueue trigger k (queues q) t = .ok (k', q') ∧
      Linked k' (Function.update queues q q') (Function.update place t (.queue q)) := by
  obtain ⟨lists, hfam, hmem⟩ := h
  obtain ⟨tr, htr⟩ := Option.isSome_iff_exists.mp htr
  have hnot : t ∉ lists q := fun hin => ht q ((hmem q t).mp hin)
  obtain ⟨k', q', hok, hrep, hagree⟩ := EventPriorityQueue.enqueue_spec (hfam.rep q) hnot htr
    fun a ha => hq a ((hmem q a).mp ha)
  exact ⟨k', q', hok, Linked.insert hfam hmem ht hrep
    List.takeWhile_append_dropWhile.symm hagree⟩

/-- Removing the task that the scan of a ready queue has locked. -/
theorem Linked.dequeueHighestPriority {σ : Type} {trigger : Task → Option (Trigger O)}
    {tryTaskLock : σ → Task → Exec (Bool × σ)} {hangs : Prop} {J : σ → Prop}
    {G : Task → σ → Prop} {s : σ} (h : Linked k queues place) (q : TaskQueue n)
    (hq : ∀ a, place a = .queue q → (trigger a).isSome) (hs : J s)
    (htry : ∀ t, place t = .queue q → ∀ s, J s → (tryTaskLock s t).Sat hangs fun (locked, s) =>
      if locked then G t s else J s) (hp : ∀ j, p ≠ .queue j) :
    (EventPriorityQueue.dequeueHighestPriority trigger tryTaskLock k (queues q) s).Sat hangs
      fun (retEl, k', q', s') => retEl = none ∧ k' = k ∧ q' = queues q ∧ J s' ∨
        ∃ t, retEl = some t ∧ place t = .queue q ∧ G t s' ∧
          Linked k' (Function.update queues q q') (Function.update place t p) := by
  obtain ⟨lists, hfam, hmem⟩ := h
  refine (EventPriorityQueue.dequeueHighestPriority_sat (hfam.rep q)
    (fun a ha => hq a ((hmem q a).mp ha)) hs fun t ht => htry t ((hmem q t).mp ht)).mono ?_
  intro ⟨retEl, k', q', s'⟩ hres
  refine hres.imp_right fun ⟨t, xs, ys, hret, hl, hrep, hagree, hG⟩ => ?_
  have ht : place t = .queue q := (hmem q t).mp (by simp [hl])
  have hnot : t ∉ xs ++ ys := by
    have hnodup := (hfam.rep q).nodup
    rw [hl, List.perm_middle.nodup_iff] at hnodup
    exact (List.nodup_cons.mp hnodup).1
  refine ⟨t, hret, ht, hG, Linked.relink hfam hmem (fun j hj => ?_) (fun j hj => (hp j hj).elim)
    hrep (hagree.mono fun a ha => .tail t ha) ?_ fun a ha => by simp [hl, ha]⟩
  · rw [ht] at hj
    injection hj with hj
    exact hj.symm
  · simpa [hp q] using hnot

end

/-! ## Tasks -/

/-- The tasks are where `place` says. A pending task has an event and a trigger; only an active one
has a stack; under the proviso, a task rests in its own pool and its event sends it there. -/
structure Placed (program : Program O E R) (proviso : Prop) (s : Tasks n E R)
    (place : Task → Place n) : Prop where
  linked : Linked s.links s.queues place
  active : ∀ cpu t, s.pActiveEventTask cpu = some t ↔ place t = .active cpu
  pending : ∀ t, (place t).Pending → ∃ r e, (s.eventTask t).trigger = some r ∧
    (s.eventTask t).event = some e ∧ (proviso → program.returnPool e = (t.home : TaskQueue n))
  stack : ∀ t, (s.eventTask t).pStackpointer ≠ none → ∃ cpu, place t = .active cpu
  home : proviso → ∀ t q, place t = .queue q → q = t.home ∨ ∃ cpuNo, q = .mFifoQueue cpuNo

instance (p : Place n) : Decidable p.Pending := by
  unfold Place.Pending
  split <;> infer_instance

/-- What a task was readied for. -/
structure Job (E R : Type) where
  event : E
  trigger : R
  mArg : UInt32

def EventTask.job (t : EventTask E R) : Option (Job E R) :=
  match t.event, t.trigger with
  | some event, some trigger => some ⟨event, trigger, t.mArg⟩
  | _, _ => none

/-- The jobs of the pending tasks. -/
def Tasks.jobs (s : Tasks n E R) (place : Task → Place n) (t : Task) : Option (Job E R) :=
  if (place t).Pending then (s.eventTask t).job else none

/-- Only the job of the task that moves may change. -/
theorem Tasks.jobs_move {s s' : Tasks n E R} {place : Task → Place n} {t : Task} {p : Place n}
    (hjob : ∀ a ≠ t, (s'.eventTask a).job = (s.eventTask a).job) :
    s'.jobs (Function.update place t p) = Function.update (s.jobs place) t
      (if p.Pending then (s'.eventTask t).job else none) := by
  funext a
  rcases eq_or_ne a t with rfl | hat
  · simp [jobs]
  · simp [jobs, hat, hjob a hat]

/-- `takeFrom` has taken the task `t` out of the pool. -/
structure Taken (pool : TaskQueue n) (s : Tasks n E R) (t : Task) (s' : Tasks n E R) : Prop where
  eventTask : s'.eventTask = Function.update s.eventTask t
    { s.eventTask t with pTimestamp := s.pLastEventID }
  lastEventID : s'.pLastEventID = s.pLastEventID + 1
  active : s'.pActiveEventTask = s.pActiveEventTask
  size : (s'.queues pool).pSize + 1 = (s.queues pool).pSize
  other : ∀ q ≠ pool, s'.queues q = s.queues q

/-- `enqueueEvent` has put the task `t` into a ready queue. -/
structure Readied (s : Tasks n E R) (t : Task) (s' : Tasks n E R) : Prop where
  eventTask : s'.eventTask = Function.update s.eventTask t { s.eventTask t with pEnqueued := true }
  lastEventID : s'.pLastEventID = s.pLastEventID
  active : s'.pActiveEventTask = s.pActiveEventTask
  other : ∀ q, (∀ cpuNo, q ≠ .mFifoQueue cpuNo) → s'.queues q = s.queues q

/-- The task `t` has been taken out of the pool and readied for a subscriber: it is in the ready
queue of the trigger. -/
structure Gives (program : Program O E R) (pool : TaskQueue n) (event : E) (arg : UInt32)
    (x : Tasks n E R × (Task → Place n)) (y : Task × R) (x' : Tasks n E R × (Task → Place n)) :
    Prop where
  free : x.2 y.1 = .queue pool
  place : x'.2 = Function.update x.2 y.1
    (.queue (.mFifoQueue (Tasks.readyQueue (program.trigger y.2).pAffinity)))
  eventTask : x'.1.eventTask = Function.update x.1.eventTask y.1
    { event := some event, trigger := some y.2, pTimestamp := x.1.pLastEventID, pEnqueued := true,
      mArg := arg, pStackpointer := (x.1.eventTask y.1).pStackpointer }
  lastEventID : x'.1.pLastEventID = x.1.pLastEventID + 1
  active : x'.1.pActiveEventTask = x.1.pActiveEventTask
  size : (x'.1.queues pool).pSize + 1 = (x.1.queues pool).pSize

theorem Gives.jobs {program : Program O E R} {pool : TaskQueue n} {event : E} {arg : UInt32}
    {s s' : Tasks n E R} {place place' : Task → Place n} {t : Task} {r : R}
    (h : Gives program pool event arg (s, place) (t, r) (s', place')) :
    s'.jobs place' = Function.update (s.jobs place) t (some ⟨event, r, arg⟩) := by
  have htask : s'.eventTask = _ := h.eventTask
  have hother : ∀ a ≠ t, (s'.eventTask a).job = (s.eventTask a).job := fun a ha => by
    rw [htask, Function.update_of_ne ha]
  rw [show place' = _ from h.place, Tasks.jobs_move hother]
  simp [htask, Place.Pending, EventTask.job]

theorem Gives.active_run {program : Program O E R} {pool : TaskQueue n} {event : E} {arg : UInt32}
    {x x' : Tasks n E R × (Task → Place n)} {news : List (Task × R)}
    (hrun : Transition.Run (Gives program pool event arg) x news x') :
    x'.1.pActiveEventTask = x.1.pActiveEventTask :=
  hrun.invariant (motive := fun y => y.1.pActiveEventTask = x.1.pActiveEventTask) rfl
    fun hy hgives => hgives.active.trans hy

/-- What a run of `Gives` has done: the triggers have got a task each, in their order, and nothing
else has changed. -/
structure Handed (program : Program O E R) (pool : TaskQueue n) (event : E) (arg : UInt32)
    (x : Tasks n E R × (Task → Place n)) (news : List (Task × R))
    (x' : Tasks n E R × (Task → Place n)) : Prop where
  nodup : (news.map Prod.fst).Nodup
  free : ∀ y ∈ news, x.2 y.1 = .queue pool
  place : ∀ y ∈ news, x'.2 y.1 =
    .queue (.mFifoQueue (Tasks.readyQueue (program.trigger y.2).pAffinity))
  eventTask : ∀ i y, news[i]? = some y → x'.1.eventTask y.1 =
    { event := some event, trigger := some y.2, pTimestamp := x.1.pLastEventID + .ofNat i,
      pEnqueued := true, mArg := arg, pStackpointer := (x.1.eventTask y.1).pStackpointer }
  otherPlace : ∀ t ∉ news.map Prod.fst, x'.2 t = x.2 t
  otherTask : ∀ t ∉ news.map Prod.fst, x'.1.eventTask t = x.1.eventTask t
  lastEventID : x'.1.pLastEventID = x.1.pLastEventID + .ofNat news.length
  active : x'.1.pActiveEventTask = x.1.pActiveEventTask
  size : (x'.1.queues pool).pSize + news.length = (x.1.queues pool).pSize

section
variable {program : Program O E R} {pool : TaskQueue n} {event : E} {arg : UInt32}
  {x x' : Tasks n E R × (Task → Place n)} {news : List (Task × R)}

theorem Gives.handed (hpool : ∀ cpuNo, pool ≠ .mFifoQueue cpuNo)
    (hrun : Transition.Run (Gives program pool event arg) x news x') :
    Handed program pool event arg x news x' := by
  induction hrun with
  | nil =>
    exact ⟨by simp, by simp, by simp, by simp, fun _ _ => rfl, fun _ _ => rfl, by simp, rfl, rfl⟩
  | @snoc news x₁ y x₂ hrun hgives ih =>
    -- the task of the last round was still free, so it is none of those before
    have hnew : y.1 ∉ news.map Prod.fst := by
      intro hmem
      obtain ⟨z, hz, hzy⟩ := List.mem_map.mp hmem
      have hplace := ih.place z hz
      rw [hzy, hgives.free] at hplace
      exact hpool _ (Place.queue.inj hplace)
    have hne : ∀ z ∈ news, z.1 ≠ y.1 := fun z hz e => hnew (e ▸ List.mem_map_of_mem hz)
    refine ⟨?_, fun z hz => ?_, fun z hz => ?_, fun i z hz => ?_, fun t ht => ?_, fun t ht => ?_,
      ?_, hgives.active.trans ih.active, ?_⟩
    · rw [List.map_append, List.nodup_append]
      refine ⟨ih.nodup, by simp, fun a ha b hb e => ?_⟩
      obtain rfl : b = y.1 := by simpa using hb
      exact hnew (e ▸ ha)
    · rcases List.mem_append.mp hz with hz | hz
      · exact ih.free z hz
      · obtain rfl := List.mem_singleton.mp hz
        rw [← ih.otherPlace _ hnew]
        exact hgives.free
    · rw [hgives.place]
      rcases List.mem_append.mp hz with hz | hz
      · rw [Function.update_of_ne (hne z hz)]
        exact ih.place z hz
      · obtain rfl := List.mem_singleton.mp hz
        rw [Function.update_self]
    · rw [hgives.eventTask]
      rcases Nat.lt_or_ge i news.length with hlt | hge
      · rw [List.getElem?_append_left hlt] at hz
        rw [Function.update_of_ne (hne z (List.mem_of_getElem? hz))]
        exact ih.eventTask i z hz
      · rw [List.getElem?_append_right hge, List.getElem?_singleton] at hz
        split at hz
        · next hi =>
          obtain rfl := Option.some.inj hz
          obtain rfl : i = news.length := by omega
          rw [Function.update_self, ih.otherTask _ hnew, ih.lastEventID]
        · cases hz
    · rw [List.map_append, List.mem_append, not_or] at ht
      rw [hgives.place, Function.update_of_ne (by simpa using ht.2)]
      exact ih.otherPlace t ht.1
    · rw [List.map_append, List.mem_append, not_or] at ht
      rw [hgives.eventTask, Function.update_of_ne (by simpa using ht.2)]
      exact ih.otherTask t ht.1
    · rw [hgives.lastEventID, ih.lastEventID, List.length_append, List.length_singleton,
        UInt64.ofNat_add, UInt64.add_assoc]
      rfl
    · rw [List.length_append, List.length_singleton, ← ih.size, ← hgives.size]
      omega

theorem Handed.jobs_of_mem {y : Task × R} (h : Handed program pool event arg x news x')
    (hy : y ∈ news) : x'.1.jobs x'.2 y.1 = some ⟨event, y.2, arg⟩ := by
  obtain ⟨i, hi⟩ := List.mem_iff_getElem?.mp hy
  simp [Tasks.jobs, h.place y hy, Place.Pending, h.eventTask i y hi, EventTask.job]

theorem Handed.jobs_free {y : Task × R} (h : Handed program pool event arg x news x')
    (hpool : ∀ cpuNo, pool ≠ .mFifoQueue cpuNo) (hy : y ∈ news) : x.1.jobs x.2 y.1 = none := by
  rw [Tasks.jobs, h.free y hy]
  cases pool with
  | mFifoQueue cpuNo => exact absurd rfl (hpool cpuNo)
  | _ => rfl

theorem Handed.jobs_of_notMem {t : Task} (h : Handed program pool event arg x news x')
    (ht : t ∉ news.map Prod.fst) : x'.1.jobs x'.2 t = x.1.jobs x.2 t := by
  simp [Tasks.jobs, h.otherPlace t ht, h.otherTask t ht]

end

/-- Between two calls no task is in hand. -/
def Settled (program : Program O E R) (proviso : Prop) (s : Tasks n E R) : Prop :=
  ∃ place, Placed program proviso s place ∧ ∀ t, place t ≠ .inHand

section
variable {program : Program O E R} {proviso : Prop} {s s' : Tasks n E R} {place : Task → Place n}
  {t : Task} {p : Place n}

theorem Placed.trigger_isSome (h : Placed program proviso s place) (ht : (place t).Pending) :
    (s.trigger program t).isSome := by
  obtain ⟨r, e, hr, -⟩ := h.pending t ht
  simp [Tasks.trigger, hr]

/-- A step that moves one task and writes the fields of no other. -/
theorem Placed.move (h : Placed program proviso s place)
    (hlinked : Linked s'.links s'.queues (Function.update place t p))
    (hactive : ∀ cpu a, s'.pActiveEventTask cpu = some a ↔
      Function.update place t p a = .active cpu)
    (htask : ∀ a ≠ t, s'.eventTask a = s.eventTask a)
    (hpending : p.Pending → ∃ r e, (s'.eventTask t).trigger = some r ∧
      (s'.eventTask t).event = some e ∧ (proviso → program.returnPool e = (t.home : TaskQueue n)))
    (hstack : (s'.eventTask t).pStackpointer ≠ none → ∃ cpu, p = .active cpu)
    (hhome : proviso → ∀ q, p = .queue q → q = t.home ∨ ∃ cpuNo, q = .mFifoQueue cpuNo) :
    Placed program proviso s' (Function.update place t p) := by
  refine ⟨hlinked, hactive, fun a ha => ?_, fun a ha => ?_, fun hprov a q ha => ?_⟩ <;>
    by_cases hat : a = t
  · subst hat
    exact hpending (by simpa using ha)
  · rw [htask a hat]
    exact h.pending a (by simpa [hat] using ha)
  · subst hat
    simpa using hstack ha
  · rw [htask a hat] at ha
    simpa [hat] using h.stack a ha
  · subst hat
    exact hhome hprov q (by simpa using ha)
  · exact h.home hprov a q (by simpa [hat] using ha)

/-- Neither from nor to a CPU: the table of active tasks still agrees. -/
theorem Placed.active_update (h : Placed program proviso s place)
    (ht : ∀ cpu, place t ≠ .active cpu) (hp : ∀ cpu, p ≠ .active cpu) (cpu : Fin n) (a : Task) :
    s.pActiveEventTask cpu = some a ↔ Function.update place t p a = .active cpu := by
  by_cases hat : a = t
  · subst hat
    simp [h.active, ht, hp]
  · rw [Function.update_of_ne hat, h.active]

/-- Writing fields of a task where it is. -/
theorem Placed.setTask (h : Placed program proviso s place) {f : EventTask E R → EventTask E R}
    (hpending : (place t).Pending →
      ∃ r e, (f (s.eventTask t)).trigger = some r ∧ (f (s.eventTask t)).event = some e ∧
        (proviso → program.returnPool e = (t.home : TaskQueue n)))
    (hstack : (f (s.eventTask t)).pStackpointer ≠ none → ∃ cpu, place t = .active cpu) :
    Placed program proviso (s.setTask t f) place := by
  have hself := Function.update_eq_self t place
  have hmove : Placed program proviso (s.setTask t f) (Function.update place t (place t)) := by
    refine h.move (hself.symm ▸ h.linked) (hself.symm ▸ h.active) (fun a ha => ?_) ?_ ?_
      fun hprov q hq => h.home hprov t q hq
    · exact Function.update_of_ne ha _ _
    · simpa [Tasks.setTask] using hpending
    · simpa [Tasks.setTask] using hstack
  rwa [hself] at hmove

/-- An empty pool gives no task. Else a task is taken out, and stamped. -/
theorem Placed.takeFrom {pool : TaskQueue n} {hangs : Prop} (h : Placed program proviso s place) :
    (s.takeFrom pool).Sat hangs fun (o, s') =>
      o = none ∧ s' = s ∧ (s.queues pool).pSize = 0 ∨ ∃ t, o = some t ∧ place t = .queue pool ∧
        Taken pool s t s' ∧ Placed program proviso s' (Function.update place t .inHand) := by
  rcases h.linked.dequeueFirst pool with ⟨hnone, hsize⟩ | ⟨t, k', q', hok, ht, hsize, hlinked⟩
  · simp [Tasks.takeFrom, hnone, Tasks.setQueue, hsize]
  · simp only [Tasks.takeFrom, hok, Exec.ok_bind, Exec.pure_eq, Exec.sat_ok]
    refine .inr ⟨t, rfl, ht, ⟨rfl, rfl, rfl, ?_, fun q hq => ?_⟩, h.move hlinked ?_
      (fun a ha => ?_) (fun hp => hp.elim) (fun hstack => ?_) fun _ q hq => by simp at hq⟩
    · simpa [Tasks.setTask, Tasks.setQueue] using hsize
    · exact Function.update_of_ne hq _ _
    · exact h.active_update (by simp [ht]) (by simp)
    · exact Function.update_of_ne ha _ _
    · obtain ⟨cpu, hcpu⟩ := h.stack t (by simpa [Tasks.setTask, Tasks.setQueue] using hstack)
      simp [ht] at hcpu

/-- A task that was prepared in hand goes to the ready queue of its trigger. -/
theorem Placed.enqueueEvent {hangs : Prop} (h : Placed program proviso s place)
    (ht : place t = .inHand)
    (htask : ∃ r e, (s.eventTask t).trigger = some r ∧ (s.eventTask t).event = some e ∧
      (proviso → program.returnPool e = (t.home : TaskQueue n))) :
    (s.enqueueEvent program t).Sat hangs fun s' => Readied s t s' ∧
      ∃ r, (s.eventTask t).trigger = some r ∧ Placed program proviso s' (Function.update place t
        (.queue (.mFifoQueue (Tasks.readyQueue (program.trigger r).pAffinity)))) := by
  obtain ⟨r, e, hr, he, hret⟩ := htask
  have htr : s.trigger program t = some (program.trigger r) := by simp [Tasks.trigger, hr]
  have h' : Placed program proviso (s.setTask t fun x => { x with pEnqueued := true }) place :=
    h.setTask (fun hp => by simp [ht, Place.Pending] at hp) fun hs => h.stack t hs
  have hready : ∀ a, place a = .queue (.mFifoQueue (Tasks.readyQueue
      (program.trigger r).pAffinity)) → (s.trigger program a).isSome :=
    fun a ha => h.trigger_isSome (by simp [ha, Place.Pending])
  have hsome : (s.trigger program t).isSome := by simp [htr]
  obtain ⟨k', q', hok, hlinked⟩ := h'.linked.enqueue _ (by simp [ht]) hsome hready
  have heq : s.enqueueEvent program t = .ok ((s.setTask t fun x => { x with pEnqueued := true
      }).setQueue (.mFifoQueue (Tasks.readyQueue (program.trigger r).pAffinity)) k' q') := by
    simp only [Tasks.enqueueEvent, derefTrigger_eq_ok.mpr htr, Exec.ok_bind]
    rw [Tasks.trigger_setTask rfl]
    simp [hok]
  rw [heq, Exec.sat_ok]
  refine ⟨⟨rfl, rfl, rfl, fun q hq => ?_⟩, r, hr, h'.move hlinked ?_ (fun a ha => rfl)
    (fun _ => ?_) (fun hs => ?_) fun _ q hq => ?_⟩
  · exact Function.update_of_ne (hq _) _ _
  · exact h'.active_update (by simp [ht]) (by simp)
  · exact ⟨r, e, by simpa [Tasks.setTask, Tasks.setQueue] using hr,
      by simpa [Tasks.setTask, Tasks.setQueue] using he, hret⟩
  · obtain ⟨cpu, hcpu⟩ := h'.stack t hs
    simp [ht] at hcpu
  · injection hq with hq
    exact .inr ⟨_, hq.symm⟩

/-- A finished task in hand goes to a pool, under the proviso to its own. -/
theorem Placed.requeueTo {pool : TaskQueue n} {hangs : Prop} (h : Placed program proviso s place)
    (ht : place t = .inHand) (hpool : ∀ cpuNo, pool ≠ .mFifoQueue cpuNo)
    (hhome : proviso → pool = t.home) : (s.requeueTo pool t).Sat hangs fun s' =>
      s'.pActiveEventTask = s.pActiveEventTask ∧ (∀ a ≠ t, s'.eventTask a = s.eventTask a) ∧
        Placed program proviso s' (Function.update place t (.queue pool)) := by
  have h' : Placed program proviso (s.setTask t fun x =>
      { x with pStackpointer := none, pEnqueued := false, event := none, trigger := none }) place :=
    h.setTask (fun hp => by simp [ht, Place.Pending] at hp) fun hs => (hs rfl).elim
  obtain ⟨k', q', hok, hlinked⟩ := h'.linked.enqueueFast pool (t := t) (by simp [ht])
  simp only [Tasks.requeueTo, hok, Exec.ok_bind, Exec.pure_eq, Exec.sat_ok]
  refine ⟨rfl, fun a ha => Function.update_of_ne ha _ _, h'.move hlinked ?_ (fun a ha => rfl)
    (fun hp => ?_) (fun hs => ?_) fun hprov q hq => ?_⟩
  · exact h'.active_update (by simp [ht]) (by simp)
  · cases pool with
    | mFifoQueue cpuNo => exact (hpool cpuNo rfl).elim
    | _ => exact hp.elim
  · obtain ⟨cpu, hcpu⟩ := h'.stack t hs
    simp [ht] at hcpu
  · injection hq with hq
    exact .inl (hq ▸ hhome hprov)

variable [DecidableEq O]

/-- Why a call of the scheduler may hang: there is a trigger without a destination. -/
def NoDestination (program : Program O E R) : Prop :=
  ∃ r, (program.trigger r).pDestinationOSC = none

/-- Looking for a task in a ready queue, on a CPU without an active task. -/
theorem Placed.dequeueReady {cpu : Fin n} {cpuNo : Fin (n + 1)}
    (h : Placed program proviso s place) (hcpu : s.pActiveEventTask cpu = none) :
    (s.dequeueReady program cpu cpuNo).Sat (NoDestination program) fun (o, s') =>
      o = none ∧ s' = s ∨ ∃ t, o = some t ∧ place t = .queue (.mFifoQueue cpuNo) ∧
        s'.eventTask = s.eventTask ∧
        s'.pActiveEventTask = Function.update s.pActiveEventTask cpu (some t) ∧
        Placed program proviso s' (Function.update place t (.active cpu)) := by
  have hready : ∀ a, place a = .queue (.mFifoQueue cpuNo) → (s.trigger program a).isSome :=
    fun a ha => h.trigger_isSome (by simp [ha, Place.Pending])
  have hactive : ∀ cpu a, s.pActiveEventTask cpu = some a → (s.trigger program a).isSome :=
    fun cpu a ha => h.trigger_isSome (by simp [(h.active cpu a).mp ha, Place.Pending])
  have htry : ∀ t, place t = .queue (.mFifoQueue cpuNo) → ∀ active, active = s.pActiveEventTask →
      (tryTaskLock (s.trigger program) active cpu t).Sat (NoDestination program)
        fun (locked, active') =>
          if locked then active' = Function.update s.pActiveEventTask cpu (some t)
          else active' = s.pActiveEventTask := by
    intro t ht active hact
    subst hact
    refine (tryTaskLock_sat (hready t ht) hactive hcpu fun tr htr hdest => ?_).mono ?_
    · obtain ⟨r, -, hr⟩ := Option.map_eq_some_iff.mp htr
      exact ⟨r, hr ▸ hdest⟩
    · intro ⟨locked, active'⟩ hres
      cases locked <;> simpa using hres
  refine (h.linked.dequeueHighestPriority (J := fun active => active = s.pActiveEventTask)
    (G := fun t active => active = Function.update s.pActiveEventTask cpu (some t))
    (p := .active cpu) _ hready rfl htry (by simp)).bind ?_
  intro ⟨o, k', q', active'⟩ hres
  rcases hres with ⟨rfl, rfl, rfl, rfl⟩ | ⟨t, rfl, ht, rfl, hlinked⟩
  · exact .inl ⟨rfl, by simp [Tasks.setQueue]⟩
  · refine .inr ⟨t, rfl, ht, rfl, rfl, h.move hlinked (fun cpu' a => ?_) (fun _ _ => rfl)
      (fun _ => h.pending t (by simp [ht, Place.Pending])) (fun _ => ⟨cpu, rfl⟩)
      fun _ q hq => by simp at hq⟩
    have hinactive : ∀ a, place a ≠ .active cpu := fun a ha => by
      simpa [hcpu] using (h.active cpu a).mpr ha
    by_cases hc : cpu' = cpu <;> by_cases hat : a = t
    · subst hc hat
      simp
    · subst hc
      simp [hat, hinactive a, Ne.symm hat]
    · subst hat
      have hne : cpu ≠ cpu' := fun e => hc e.symm
      simp [hc, hne, h.active, ht]
    · simp [hc, hat, h.active]

omit [DecidableEq O] in
/-- Preparing a task that was taken from a pool, and readying it. -/
theorem Placed.readyTaken {pool : TaskQueue n} {s₁ : Tasks n E R} {event : E} {r : R}
    {arg : UInt32} {hangs : Prop} (htaken : Taken pool s t s₁)
    (h : Placed program proviso s₁ (Function.update place t .inHand))
    (hhand : ∀ a, place a ≠ .inHand) (ht : place t = .queue pool)
    (hpool : ∀ cpuNo, pool ≠ .mFifoQueue cpuNo)
    (hhome : proviso → program.returnPool event = (t.home : TaskQueue n)) :
    ((s₁.setTask t fun x => { x with event := some event, trigger := some r, mArg := arg
      }).readyTask program t).Sat hangs fun s' => ∃ place', Placed program proviso s' place' ∧
        (∀ a, place' a ≠ .inHand) ∧ Gives program pool event arg (s, place) (t, r) (s', place') := by
  set s₂ := s₁.setTask t fun x => { x with event := some event, trigger := some r, mArg := arg }
    with hs₂
  have hself : s₂.eventTask t =
      { s.eventTask t with
        event := some event, trigger := some r, pTimestamp := s.pLastEventID, mArg := arg } := by
    simp [hs₂, Tasks.setTask, htaken.eventTask]
  have h' : Placed program proviso s₂ (Function.update place t .inHand) :=
    h.setTask (fun hp => by simp [Place.Pending] at hp) fun hne => h.stack t hne
  refine (h'.enqueueEvent (t := t) (by simp) ⟨r, event, by simp [hself], by simp [hself],
    hhome⟩).mono fun s' hres => ?_
  obtain ⟨hready, r', hr', hplaced⟩ := hres
  obtain rfl : r' = r := by simpa [hself] using hr'.symm
  rw [Function.update_idem] at hplaced
  refine ⟨_, hplaced, fun a => ?_, ht, rfl, ?_, ?_, ?_, ?_⟩
  · by_cases hat : a = t
    · simp [hat]
    · simpa [hat] using hhand a
  · rw [hready.eventTask, hself]
    simp [hs₂, Tasks.setTask, htaken.eventTask]
  · exact hready.lastEventID.trans htaken.lastEventID
  · exact hready.active.trans htaken.active
  · rw [hready.other pool hpool]
    exact htaken.size

omit [DecidableEq O] in
/-- A task of a pool is at home there, so an event of the right type sends it back. -/
theorem Placed.returnPool_eq_home {pool : TaskQueue n} {event : E}
    (h : Placed program proviso s place) (hpool : ∀ cpuNo, pool ≠ .mFifoQueue cpuNo)
    (hraise : proviso → program.returnPool event = pool) (ht : place t = .queue pool) :
    proviso → program.returnPool event = (t.home : TaskQueue n) := by
  intro hprov
  rcases h.home hprov t pool ht with e | ⟨cpuNo, e⟩
  · rw [hraise hprov, e]
  · exact (hpool cpuNo e).elim

omit [DecidableEq O] in
/-- The loop over the subscribers gives a task to each element of the walk from `o`, until the pool
is empty. Rounds run out only before both ends. -/
theorem Placed.triggerSubscribers {pool : TaskQueue n} {links : QueueElements R} {event : E}
    {arg : UInt32} {o : Option R} {fuel : Nat} (h : Placed program proviso s place)
    (hhand : ∀ a, place a ≠ .inHand) (hpool : ∀ cpuNo, pool ≠ .mFifoQueue cpuNo)
    (hraise : proviso → program.returnPool event = pool) :
    (s.triggerSubscribers program pool links event arg fuel o).Sat
      (fuel ≤ (s.queues pool).pSize ∧ fuel < (Queue.walk links (fuel + 1) o).length) fun s' =>
        ∃ news place', Placed program proviso s' place' ∧ (∀ a, place' a ≠ .inHand) ∧
          Transition.Run (Gives program pool event arg) (s, place) news (s', place') ∧
          news.map Prod.snd = Queue.walk links (s.queues pool).pSize o := by
  induction fuel generalizing s place o with
  | zero =>
    cases o with
    | none => exact ⟨[], place, h, hhand, .nil, by simp⟩
    | some r => exact ⟨Nat.zero_le _, by simp [Queue.walk]⟩
  | succ fuel ih =>
    cases o with
    | none => exact ⟨[], place, h, hhand, .nil, by simp⟩
    | some r =>
      refine h.takeFrom.bind ?_
      rintro ⟨o, s₁⟩ (⟨rfl, rfl, hsize⟩ | ⟨t, rfl, ht, htaken, h₁⟩)
      · exact ⟨[], place, h, hhand, .nil, by simp [hsize, Queue.walk]⟩
      have hhome := h.returnPool_eq_home hpool hraise ht
      refine (h₁.readyTaken htaken hhand ht hpool hhome).bind fun s₂ hres => ?_
      obtain ⟨place₂, h₂, hhand₂, hgives⟩ := hres
      have hsize : (s₂.queues pool).pSize + 1 = (s.queues pool).pSize := hgives.size
      have hrest := ih (o := links.pNext r) h₂ hhand₂
      refine (hrest.weaken fun hout => ?_).mono fun s' hres => ?_
      · rw [← hsize]
        exact ⟨Nat.succ_le_succ hout.1, Nat.succ_lt_succ hout.2⟩
      · obtain ⟨news, place', h', hhand', hrun, hwalk⟩ := hres
        refine ⟨(t, r) :: news, place', h', hhand', ?_, ?_⟩
        · exact Transition.run_cons_iff.mpr ⟨_, hgives, hrun⟩
        · rw [← hsize]
          simp [Queue.walk, hwalk]

/-- The queue of the CPU, or else the queue of all CPUs. -/
theorem Placed.getLocalOrGlobalEvent {cpu : Fin n} (h : Placed program proviso s place)
    (hcpu : s.pActiveEventTask cpu = none) :
    (s.getLocalOrGlobalEvent program cpu).Sat (NoDestination program) fun (o, s') =>
      o = none ∧ s' = s ∨ ∃ t cpuNo, o = some t ∧ place t = .queue (.mFifoQueue cpuNo) ∧
        s'.eventTask = s.eventTask ∧
        s'.pActiveEventTask = Function.update s.pActiveEventTask cpu (some t) ∧
        Placed program proviso s' (Function.update place t (.active cpu)) := by
  refine (h.dequeueReady hcpu).bind fun ⟨o, s₁⟩ hres => ?_
  rcases hres with ⟨rfl, rfl⟩ | ⟨t, rfl, hres⟩
  · refine (h.dequeueReady hcpu).mono fun ⟨o, s₂⟩ hres => ?_
    exact hres.imp_right fun ⟨t, ho, hres⟩ => ⟨t, _, ho, hres⟩
  · exact .inr ⟨t, _, rfl, hres⟩

omit [DecidableEq O] in
/-- A finished task is in hand until it is put back into a pool. -/
theorem Placed.finish {cpu : Fin n} (h : Placed program proviso s place)
    (ht : place t = .active cpu) :
    Placed program proviso (s.finish cpu t) (Function.update place t .inHand) := by
  refine h.move (h.linked.congr fun q a => ?_) (fun cpu' a => ?_)
    (fun a ha => Function.update_of_ne ha _ _) (fun hp => hp.elim) (fun hs => ?_)
    fun _ q hq => by simp at hq
  · by_cases hat : a = t
    · simp [hat, ht]
    · simp [hat]
  · by_cases hc : cpu' = cpu <;> by_cases hat : a = t
    · simp [Tasks.finish, Tasks.setTask, unlockTask, hc, hat]
    · have hother : place a ≠ .active cpu := fun e => hat <| Option.some.inj
        (((h.active cpu a).mpr e).symm.trans ((h.active cpu t).mpr ht))
      simp [Tasks.finish, Tasks.setTask, unlockTask, hc, hat, hother]
    · have hne : cpu ≠ cpu' := fun e => hc e.symm
      simp [Tasks.finish, Tasks.setTask, unlockTask, hc, hat, h.active, ht, hne]
    · simp [Tasks.finish, Tasks.setTask, unlockTask, hc, hat, h.active]
  · simp [Tasks.finish, Tasks.setTask] at hs

omit [DecidableEq O] in
/-- A finished task goes to a pool, under the proviso to its own. -/
theorem Placed.requeueFinished {pool : TaskQueue n} {cpu : Fin n} {hangs : Prop}
    (h : Placed program proviso s place) (ht : place t = .active cpu)
    (hpool : ∀ cpuNo, pool ≠ .mFifoQueue cpuNo) (hhome : proviso → pool = t.home) :
    ((s.finish cpu t).requeueTo pool t).Sat hangs fun s' =>
      s'.pActiveEventTask = Function.update s.pActiveEventTask cpu none ∧
        s'.jobs (Function.update place t (.queue pool)) = Function.update (s.jobs place) t none ∧
        Placed program proviso s' (Function.update place t (.queue pool)) := by
  refine ((h.finish ht).requeueTo (t := t) (by simp) hpool hhome).mono ?_
  intro s' ⟨hact, htask, hput⟩
  rw [Function.update_idem] at hput
  refine ⟨hact, ?_, hput⟩
  have hpending : ¬ (Place.queue pool : Place n).Pending := by
    cases pool with
    | mFifoQueue cpuNo => exact absurd rfl (hpool cpuNo)
    | _ => exact not_false
  rw [Tasks.jobs_move fun a ha => ?_, if_neg hpending]
  rw [htask a ha]
  simp [Tasks.finish, Tasks.setTask, ha]

omit [DecidableEq O] in
/-- A pool holds each task once. -/
theorem Placed.size_le (h : Placed program proviso s place) (q : TaskQueue n) :
    (s.queues q).pSize ≤ Fintype.card Task := by
  obtain ⟨lists, hfam, -⟩ := h.linked
  rw [(hfam.rep q).size]
  exact (hfam.rep q).nodup.length_le_card

end

end CyPhOS
