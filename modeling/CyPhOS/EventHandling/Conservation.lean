import CyPhOS.EventHandling.Placement
import CyPhOS.Lib.Run
import Mathlib.Data.Fintype.EquivFin

/-! # No task is lost

Every CPU repeats a cycle: it releases the stack of its last task (`dispatching`), looks for a task
until it finds one (`waiting`) and runs it (`executing`). In between, on any CPU, events are raised
and triggers subscribed. `SchedulerStep` is one call, `Conserved` the invariant of all runs, and
`task_conservation` says what it means for the pointers: at all times every task is found in exactly
one place.
-/

namespace CyPhOS

variable {n : Nat} {O E R : Type}

/-! ## Stacks -/

/-- A stack is marked as used exactly if a CPU still has to release it, and no two CPUs have the
same. -/
structure StacksHeld (pStackPointers : Fin n → Option Nat) (pool : StackPool) : Prop where
  pointer : 0 < n → pool.mUsedPointer < n
  used_iff : ∀ i < n, pool.mUsedStacks i = true ↔ ∃ cpu, pStackPointers cpu = some i
  bound : ∀ cpu i, pStackPointers cpu = some i → i < n
  distinct : ∀ cpu cpu' i, pStackPointers cpu = some i → pStackPointers cpu' = some i → cpu = cpu'

section
variable {pStackPointers : Fin n → Option Nat} {pool : StackPool} {cpu : Fin n} {i : Nat}

/-- There are as many stacks as CPUs, so one that holds none finds one. -/
theorem StacksHeld.exists_free (h : StacksHeld pStackPointers pool)
    (hcpu : pStackPointers cpu = none) : ∃ i < n, pool.mUsedStacks i = false := by
  by_contra hall
  simp only [not_exists, not_and, Bool.not_eq_false] at hall
  have hholder : ∀ i : Fin n, ∃ cpu, pStackPointers cpu = some i.val :=
    fun i => (h.used_iff i i.isLt).mp (hall i i.isLt)
  obtain ⟨holder, hholder⟩ := Classical.axiomOfChoice hholder
  have hinj : Function.Injective holder := by
    intro i j hij
    have hsame : some i.val = some j.val := by rw [← hholder i, ← hholder j, hij]
    exact Fin.ext (Option.some.inj hsame)
  obtain ⟨i, hi⟩ := Finite.injective_iff_surjective.mp hinj cpu
  rw [← hi, hholder] at hcpu
  cases hcpu

theorem StacksHeld.hold (h : StacksHeld pStackPointers pool) (hcpu : pStackPointers cpu = none)
    (hi : i < n) (hfree : pool.mUsedStacks i = false) :
    StacksHeld (Function.update pStackPointers cpu (some i))
      { mUsedStacks := Function.update pool.mUsedStacks i true, mUsedPointer := i } := by
  have hnone : ∀ cpu', pStackPointers cpu' ≠ some i := fun cpu' e => by
    simpa [hfree] using (h.used_iff i hi).mpr ⟨cpu', e⟩
  have hother : ∀ cpu' j, Function.update pStackPointers cpu (some i) cpu' = some j ↔
      cpu' = cpu ∧ j = i ∨ pStackPointers cpu' = some j := by
    intro cpu' j
    by_cases hc : cpu' = cpu
    · simp [hc, hcpu, eq_comm]
    · simp [hc]
  refine ⟨fun _ => hi, fun j hj => ?_, fun cpu' j hj => ?_, fun c c' j hc hc' => ?_⟩
  · by_cases hji : j = i
    · subst hji
      simpa using ⟨cpu, (hother cpu j).mpr (.inl ⟨rfl, rfl⟩)⟩
    · simp [hother, hji, h.used_iff j hj]
  · rcases (hother cpu' j).mp hj with ⟨-, rfl⟩ | hj
    · exact hi
    · exact h.bound cpu' j hj
  · rcases (hother c j).mp hc with ⟨h₁, hj₁⟩ | h₁ <;> rcases (hother c' j).mp hc' with
      ⟨h₂, hj₂⟩ | h₂
    · exact h₁.trans h₂.symm
    · exact (hnone c' (hj₁ ▸ h₂)).elim
    · exact (hnone c (hj₂ ▸ h₁)).elim
    · exact h.distinct c c' j h₁ h₂

theorem StacksHeld.release (h : StacksHeld pStackPointers pool)
    (hcpu : pStackPointers cpu = some i) :
    StacksHeld (Function.update pStackPointers cpu none) (pool.setStackFree n i) := by
  have hother : ∀ cpu' j, Function.update pStackPointers cpu none cpu' = some j ↔
      cpu' ≠ cpu ∧ pStackPointers cpu' = some j := by
    intro cpu' j
    by_cases hc : cpu' = cpu
    · simp [hc]
    · simp [hc]
  rw [StackPool.setStackFree, if_pos (h.bound cpu i hcpu)]
  refine ⟨h.pointer, fun j hj => ?_, fun cpu' j hj => ?_, fun c c' j hc hc' => ?_⟩
  · by_cases hji : j = i
    · subst hji
      simp only [Function.update_self, Bool.false_eq_true, hother, false_iff, not_exists]
      exact fun cpu' ⟨hne, hc⟩ => hne (h.distinct cpu' cpu j hc hcpu)
    · simp only [Function.update_of_ne hji, hother, h.used_iff j hj]
      refine exists_congr fun cpu' => ⟨fun hc => ⟨fun e => ?_, hc⟩, fun hc => hc.2⟩
      rw [e, hcpu] at hc
      exact hji (Option.some.inj hc).symm
  · exact h.bound cpu' j ((hother cpu' j).mp hj).2
  · exact h.distinct c c' j ((hother c j).mp hc).2 ((hother c' j).mp hc').2

end

/-! ## Subscriptions -/

/-- Every trigger is subscribed to one event at most. The pool is only appended to. -/
structure Subscribed (s : Subscriptions E R) : Prop where
  subscribers : ∃ subscribers, Queue.Family s.triggerLinks s.mSubscribers subscribers
  pool : s.mOneshotEventPool.pTail = none → s.mOneshotEventPool.pHead = none

section
variable [DecidableEq E] [DecidableEq R] [Fintype R] {s : Subscriptions E R} {event : E}
  {trigger : R}

/-- Subscribing a trigger that is subscribed to no event. -/
theorem Subscribed.subscribeEvent (h : Subscribed s)
    (hfree : ∀ e l, (s.mSubscribers e).Rep s.triggerLinks l → trigger ∉ l) :
    (s.subscribeEvent event trigger).Sat False Subscribed := by
  obtain ⟨subscribers, hfam⟩ := h.subscribers
  have hnot : ∀ e, trigger ∉ subscribers e := fun e => hfree e _ (hfam.rep e)
  obtain ⟨k', q', hok, hrep, hagree⟩ := (hfam.rep event).enqueue (hnot event)
  simp only [Subscriptions.subscribeEvent, hok, Exec.ok_bind, Exec.pure_eq, Exec.sat_ok]
  exact ⟨⟨_, hfam.relink_cons (fun e he => (hnot e he).elim) hrep (by simp) hagree⟩, h.pool⟩

theorem Subscribed.unsubscribeEvent (h : Subscribed s) :
    (s.unsubscribeEvent event trigger).Sat False Subscribed := by
  obtain ⟨subscribers, hfam⟩ := h.subscribers
  obtain ⟨k', q', hok, hrep, hagree, -⟩ := (hfam.rep event).remove (a := trigger)
  simp only [Subscriptions.unsubscribeEvent, hok, Exec.ok_bind, Exec.pure_eq, Exec.sat_ok]
  exact ⟨⟨_, hfam.relink_self hrep List.erase_subset hagree⟩, h.pool⟩

theorem Subscribed.returnOneshotEventToPool (h : Subscribed s) :
    (s.returnOneshotEventToPool event).Sat False Subscribed := by
  obtain ⟨subscribers, hfam⟩ := h.subscribers
  obtain ⟨k', q', hok, hrep, hagree, -⟩ := (hfam.rep event).clearList
  simp only [Subscriptions.returnOneshotEventToPool, hok, Exec.ok_bind, Queue.enqueueFast]
  have hfam' := hfam.relink_self hrep (List.nil_subset _) hagree
  split
  · exact ⟨⟨_, hfam'⟩, by simp⟩
  · next hne =>
    cases htail : s.mOneshotEventPool.pTail with
    | none => exact (hne ⟨h.pool htail, htail⟩).elim
    | some tail => exact ⟨⟨_, hfam'⟩, by simp⟩

end

/-! ## Steps of the system -/

namespace System

variable {program : Program O E R} {proviso : Prop} {s : System n E R} {cpu : Fin n}
  {place : Task → Place n}

/-- Raising an event: the walk from the first subscriber on is given tasks. -/
theorem raise_spec [Fintype R] {pool : TaskQueue n} {event : E} {arg : UInt32}
    (h : Placed program proviso s.tasks place) (hhand : ∀ a, place a ≠ .inHand)
    (hpool : ∀ cpuNo, pool ≠ .mFifoQueue cpuNo)
    (hraise : proviso → program.returnPool event = pool) :
    (s.raise program pool event arg).Sat False fun s' =>
      ∃ news place', Placed program proviso s'.tasks place' ∧ (∀ a, place' a ≠ .inHand) ∧
        Transition.Run (Gives program pool event arg) (s.tasks, place) news (s'.tasks, place') ∧
        news.map Prod.snd = Queue.walk s.subscriptions.triggerLinks (s.tasks.queues pool).pSize
          ((s.subscriptions.mSubscribers event).get s.subscriptions.triggerLinks 0) ∧
        s' = { s with tasks := s'.tasks } := by
  refine ((h.triggerSubscribers hhand hpool hraise).weaken fun hout => ?_).bind fun tasks hres => ?_
  · have hle := hout.1.trans (h.size_le pool)
    omega
  · obtain ⟨news, place', h', hhand', hrun, hwalk⟩ := hres
    exact ⟨news, place', h', hhand', hrun, hwalk, rfl⟩

/-- A direct call takes one task, or does nothing. -/
theorem callOSCTrigger_spec {trigger : R} {arg : UInt32}
    (h : Placed program proviso s.tasks place) (hhand : ∀ a, place a ≠ .inHand) :
    (s.callOSCTrigger program trigger arg).Sat False fun s' =>
      s' = s ∧ (s.tasks.queues .pEventTaskPoolQueue).pSize = 0 ∨
        ∃ t place', Placed program proviso s'.tasks place' ∧ (∀ a, place' a ≠ .inHand) ∧
          Gives program .pEventTaskPoolQueue program.pDummyEvent arg (s.tasks, place) (t, trigger)
            (s'.tasks, place') ∧ s' = { s with tasks := s'.tasks } := by
  refine h.takeFrom.bind fun ⟨o, tasks₁⟩ hres => ?_
  rcases hres with ⟨rfl, rfl, hsize⟩ | ⟨t, rfl, ht, htaken, h₁⟩
  · exact .inl ⟨rfl, hsize⟩
  have hdummy : program.returnPool program.pDummyEvent =
      (.pEventTaskPoolQueue : TaskQueue n) := by
    simp [Program.returnPool, program.pDummyEvent_pType]
  have hhome := h.returnPool_eq_home (by simp) (fun _ => hdummy) ht
  refine (h₁.readyTaken htaken hhand ht (by simp) hhome).bind ?_
  intro tasks₂ ⟨place', h₂, hhand₂, hgives⟩
  exact .inr ⟨t, place', h₂, hhand₂, hgives, rfl⟩

theorem callOSCTrigger_sat {trigger : R} {arg : UInt32}
    (h : Settled program proviso s.tasks) :
    (s.callOSCTrigger program trigger arg).Sat False fun s' =>
      Settled program proviso s'.tasks ∧
        s'.tasks.pActiveEventTask = s.tasks.pActiveEventTask ∧
        s'.subscriptions = s.subscriptions ∧ s'.pStackPointers = s.pStackPointers ∧
        s'.stackPool = s.stackPool := by
  obtain ⟨place, hplaced, hhand⟩ := h
  refine (callOSCTrigger_spec hplaced hhand).mono fun s' hres => ?_
  rcases hres with ⟨rfl, -⟩ | ⟨t, place', h', hhand', hgives, heq⟩
  · exact ⟨⟨place, hplaced, hhand⟩, rfl, rfl, rfl, rfl⟩
  · refine ⟨⟨place', h', hhand'⟩, hgives.active, ?_⟩
    rw [heq]
    exact ⟨rfl, rfl, rfl⟩

theorem releaseStack_spec (h : StacksHeld s.pStackPointers s.stackPool) (cpu : Fin n) :
    (s.releaseStack cpu).tasks = s.tasks ∧ (s.releaseStack cpu).subscriptions = s.subscriptions ∧
      StacksHeld (s.releaseStack cpu).pStackPointers (s.releaseStack cpu).stackPool ∧
      (s.releaseStack cpu).pStackPointers = Function.update s.pStackPointers cpu none := by
  unfold releaseStack
  cases hsp : s.pStackPointers cpu with
  | none =>
    have hself := Function.update_eq_self cpu s.pStackPointers
    rw [hsp] at hself
    exact ⟨rfl, rfl, h, hself.symm⟩
  | some sp => exact ⟨rfl, rfl, h.release hsp, rfl⟩

/-- Finishing the active task of a CPU puts it into a pool, under the proviso into its own. -/
theorem eventTaskFinished_sat [DecidableEq E] [DecidableEq R] [Fintype R] {t : Task}
    (h : Settled program proviso s.tasks) (hsub : Subscribed s.subscriptions)
    (ht : s.tasks.pActiveEventTask cpu = some t) :
    (s.eventTaskFinished program cpu).Sat False fun s' =>
      (∃ place pool, Placed program proviso s'.tasks (Function.update place t (.queue pool)) ∧
        (∀ a, place a ≠ .inHand) ∧ ∀ cpuNo, pool ≠ .mFifoQueue cpuNo) ∧
        s'.tasks.pActiveEventTask = Function.update s.tasks.pActiveEventTask cpu none ∧
        Subscribed s'.subscriptions ∧ s'.pStackPointers = s.pStackPointers ∧
        s'.stackPool = s.stackPool := by
  obtain ⟨place, hplaced, hhand⟩ := h
  have hplace : place t = .active cpu := (hplaced.active cpu t).mp ht
  obtain ⟨r, event, hr, he, hret⟩ := hplaced.pending t (by simp [hplace, Place.Pending])
  have hevent : ((s.tasks.finish cpu t).eventTask t).event = some event := by
    rw [Tasks.finish_event, he]
  have hhome : proviso → (program.returnPool event : TaskQueue n) = t.home := hret
  simp only [eventTaskFinished, ht, hevent]
  rw [Program.returnPool] at hhome
  split
  · next hint =>
    rw [if_pos hint] at hhome
    refine (hplaced.requeueFinished hplace (by simp) hhome).bind fun tasks hres => ?_
    obtain ⟨hact, -, h₃⟩ := hres
    exact ⟨⟨place, _, h₃, hhand, by simp⟩, hact, hsub, rfl, rfl⟩
  · next hint =>
    rw [if_neg hint] at hhome
    split
    · refine hsub.returnOneshotEventToPool.bind fun subscriptions hsub' => ?_
      refine (hplaced.requeueFinished hplace (by simp) hhome).bind fun tasks hres => ?_
      obtain ⟨hact, -, h₃⟩ := hres
      exact ⟨⟨place, _, h₃, hhand, by simp⟩, hact, hsub', rfl, rfl⟩
    · refine (hplaced.requeueFinished hplace (by simp) hhome).bind fun tasks hres => ?_
      obtain ⟨hact, -, h₃⟩ := hres
      exact ⟨⟨place, _, h₃, hhand, by simp⟩, hact, hsub, rfl, rfl⟩

variable [DecidableEq O]

/-- On a CPU that has neither a task nor a stack `getEvent` returns the task it has locked, with a
stack that no CPU holds. The jobs of the tasks stay. -/
theorem getEvent_spec (h : Placed program proviso s.tasks place) (hhand : ∀ a, place a ≠ .inHand)
    (hstacks : StacksHeld s.pStackPointers s.stackPool)
    (hcpu : s.tasks.pActiveEventTask cpu = none) (hsp : s.pStackPointers cpu = none) :
    (s.getEvent program cpu).Sat (NoDestination program) fun (o, s') =>
      (∃ place', Placed program proviso s'.tasks place' ∧ (∀ a, place' a ≠ .inHand) ∧
        s'.tasks.jobs place' = s.tasks.jobs place) ∧ s'.subscriptions = s.subscriptions ∧
        s'.tasks.pActiveEventTask = Function.update s.tasks.pActiveEventTask cpu o ∧
        s'.pStackPointers = s.pStackPointers ∧ match o with
          | none => s'.stackPool = s.stackPool
          | some t => ∃ i, (s'.tasks.eventTask t).pStackpointer = some i ∧
              StacksHeld (Function.update s.pStackPointers cpu (some i)) s'.stackPool := by
  refine (h.getLocalOrGlobalEvent hcpu).bind fun ⟨o, tasks⟩ hres => ?_
  rcases hres with ⟨rfl, rfl⟩ | ⟨t, cpuNo, rfl, ht, htask, hact, h₁⟩
  · have hactive := Function.update_eq_self cpu s.tasks.pActiveEventTask
    rw [hcpu] at hactive
    exact ⟨⟨place, h, hhand, rfl⟩, rfl, hactive.symm, rfl, rfl⟩
  have hnostack : (tasks.eventTask t).pStackpointer = none := by
    by_contra hne
    rw [htask] at hne
    obtain ⟨cpu', hcpu'⟩ := h.stack t hne
    simp [ht] at hcpu'
  have hn : 0 < n := Nat.lt_of_le_of_lt (Nat.zero_le _) cpu.isLt
  obtain ⟨i, hi, hfree, hget⟩ :=
    StackPool.getFreeStack_spec (hstacks.pointer hn) (hstacks.exists_free hsp)
  simp only [hnostack, StackPool.provideStack, hget, Exec.ok_bind, reduceCtorEq, if_false,
    Exec.pure_eq, Exec.sat_ok]
  have hactive : Function.update place t (.active cpu) t = .active cpu := by simp
  have h₂ : Placed program proviso (tasks.setTask t fun x => { x with pStackpointer := some i })
      (Function.update place t (.active cpu)) :=
    h₁.setTask (h₁.pending t) fun _ => ⟨cpu, hactive⟩
  have h₃ := h₂.setTask (f := fun x => { x with pEnqueued := false }) (h₂.pending t)
    fun _ => ⟨cpu, hactive⟩
  refine ⟨⟨_, h₃, fun a => ?_, ?_⟩, trivial, hact, trivial, i, by simp [Tasks.setTask],
    hstacks.hold hsp hi hfree⟩
  · by_cases hat : a = t
    · simp [hat]
    · simpa [hat] using hhand a
  · have hother : ∀ a ≠ t, (((tasks.setTask t fun x => { x with pStackpointer := some i }).setTask t
        fun x => { x with pEnqueued := false }).eventTask a).job =
          (s.tasks.eventTask a).job := fun a ha => by
      simp [Tasks.setTask, ha, htask]
    rw [Tasks.jobs_move hother]
    have hjob : s.tasks.jobs place t = (s.tasks.eventTask t).job := by
      simp [Tasks.jobs, ht, Place.Pending]
    have hself := Function.update_eq_self t (s.tasks.jobs place)
    rw [hjob] at hself
    simpa [Tasks.setTask, htask, Place.Pending, EventTask.job] using hself

/-- A round of the dispatch loop never finds a task that is not locked, and keeps the jobs. -/
theorem dispatchEvent_spec (h : Placed program proviso s.tasks place)
    (hhand : ∀ a, place a ≠ .inHand) (hstacks : StacksHeld s.pStackPointers s.stackPool)
    (hcpu : s.tasks.pActiveEventTask cpu = none) (hsp : s.pStackPointers cpu = none) :
    (s.dispatchEvent program cpu).Sat (NoDestination program) fun (o, s') =>
      (∃ place', Placed program proviso s'.tasks place' ∧ (∀ a, place' a ≠ .inHand) ∧
        s'.tasks.jobs place' = s.tasks.jobs place) ∧ s'.subscriptions = s.subscriptions ∧
        s'.tasks.pActiveEventTask = Function.update s.tasks.pActiveEventTask cpu o ∧
        StacksHeld s'.pStackPointers s'.stackPool ∧
        ∀ cpu', cpu' ≠ cpu ∨ o = none → s'.pStackPointers cpu' = s.pStackPointers cpu' := by
  refine (getEvent_spec h hhand hstacks hcpu hsp).bind fun ⟨o, s₁⟩ ⟨h₁, hsub, hact, hptr, hres⟩ =>
    ?_
  simp only [hact, Function.update_self, ne_eq, not_true_eq_false, if_false]
  cases o with
  | none => exact ⟨h₁, hsub, hact, by rwa [hptr, hres], fun _ _ => by rw [hptr]⟩
  | some t =>
    obtain ⟨i, hi, hhold⟩ := hres
    simp only [hi, hptr, Exec.pure_eq, Exec.sat_ok]
    refine ⟨h₁, hsub, hact, hhold, fun cpu' hc => Function.update_of_ne ?_ _ _⟩
    simpa using hc

theorem dispatchEvent_sat (h : Settled program proviso s.tasks)
    (hstacks : StacksHeld s.pStackPointers s.stackPool)
    (hcpu : s.tasks.pActiveEventTask cpu = none) (hsp : s.pStackPointers cpu = none) :
    (s.dispatchEvent program cpu).Sat (NoDestination program) fun (o, s') =>
      Settled program proviso s'.tasks ∧ s'.subscriptions = s.subscriptions ∧
        s'.tasks.pActiveEventTask = Function.update s.tasks.pActiveEventTask cpu o ∧
        StacksHeld s'.pStackPointers s'.stackPool ∧
        ∀ cpu', cpu' ≠ cpu ∨ o = none → s'.pStackPointers cpu' = s.pStackPointers cpu' := by
  obtain ⟨place, hplaced, hhand⟩ := h
  refine (dispatchEvent_spec hplaced hhand hstacks hcpu hsp).mono fun ⟨o, s'⟩ hres => ?_
  obtain ⟨⟨place', h', hhand', -⟩, hrest⟩ := hres
  exact ⟨⟨place', h', hhand'⟩, hrest⟩

/-- What the queues hold after the constructors. -/
def bootLists : TaskQueue n → List Task
  | .pEventTaskPoolQueue => List.ofFn Task.pEventTasks
  | .pInterruptTaskPoolQueue => List.ofFn Task.pInterruptTasks
  | .mFifoQueue _ => []

omit [DecidableEq O] in
/-- After the constructors every task lies in the pool of its array. -/
theorem boot_sat (subscriptions : Subscriptions E R) :
    (boot (n := n) subscriptions).Sat False fun s =>
      Placed program proviso s.tasks (fun t => .queue t.home) ∧
      (s.tasks.queues .pEventTaskPoolQueue).pSize = cEventTaskPoolSize ∧
      (s.tasks.queues .pInterruptTaskPoolQueue).pSize = cInterruptTaskPoolSize ∧
      s.subscriptions = subscriptions ∧ StacksHeld s.pStackPointers s.stackPool ∧
      s.tasks.pActiveEventTask = fun _ => none := by
  have hevent : ([] ++ List.ofFn Task.pEventTasks).Nodup :=
    List.nodup_ofFn.mpr fun i j h => Task.pEventTasks.inj h
  have hinterrupt : ([] ++ List.ofFn Task.pInterruptTasks).Nodup :=
    List.nodup_ofFn.mpr fun i j h => Task.pInterruptTasks.inj h
  have ⟨k₁, q₁, hok₁, hrep₁, hagree₁⟩ := (Queue.Rep.new .zeroed).enqueueAll hevent
  have ⟨k₂, q₂, hok₂, hrep₂, hagree₂⟩ := (Queue.Rep.new k₁).enqueueAll hinterrupt
  simp only [List.nil_append] at hrep₁ hrep₂ hagree₂
  have hrep₁ := hrep₁.frame hagree₂ (by simp [List.mem_ofFn])
  unfold boot
  rw [hok₁, Exec.ok_bind]
  dsimp only
  rw [hok₂, Exec.ok_bind]
  dsimp only
  rw [Exec.pure_eq, Exec.sat_ok]
  have hmem : ∀ q t, t ∈ bootLists q ↔ (.queue t.home : Place n) = .queue q := by
    intro q t
    cases q <;> cases t <;> simp [bootLists, Task.home, List.mem_ofFn]
  refine ⟨⟨⟨bootLists, ⟨fun q => ?_, fun q q' t h h' => ?_⟩, hmem⟩, by simp, fun t ht => ?_,
    fun t ht => (ht rfl).elim, fun _ t q hq => ?_⟩, ?_, ?_, rfl,
    ⟨id, by simp [StackPool.new], by simp, by simp⟩, rfl⟩
  · cases q with
    | pEventTaskPoolQueue => exact hrep₁
    | pInterruptTaskPoolQueue => exact hrep₂
    | mFifoQueue cpuNo => exact Queue.Rep.new k₂
  · exact Place.queue.inj (((hmem q t).mp h).symm.trans ((hmem q' t).mp h'))
  · cases t <;> exact ht.elim
  · exact .inl (Place.queue.inj hq).symm
  · exact hrep₁.size.trans List.length_ofFn
  · exact hrep₂.size.trans List.length_ofFn

end System

/-! ## Runs -/

/-- Where a CPU is in its cycle. -/
inductive Phase
  | dispatching
  | waiting
  | executing
  deriving DecidableEq, Repr

structure Machine (n : Nat) (E R : Type) where
  system : System n E R
  phase : Fin n → Phase

inductive SchedulerOp (n : Nat) (E R : Type)
  | releaseStack (cpu : Fin n)
  | dispatchEvent (cpu : Fin n)
  | eventTaskFinished (cpu : Fin n)
  | eventTriggered (event : E) (arg : UInt32)
  | interruptEventTriggered (event : E) (arg : UInt32)
  | callOSCTrigger (trigger : R) (arg : UInt32)
  | subscribeEvent (event : E) (trigger : R)
  | unsubscribeEvent (event : E) (trigger : R)

/-- Interrupt events are raised by `interruptEventTriggered` and no others are. -/
def SchedulerOp.RaisedByType (program : Program O E R) : SchedulerOp n E R → Prop
  | .eventTriggered event _ => program.pType event ≠ .interruptEvent
  | .interruptEventTriggered event _ => program.pType event = .interruptEvent
  | _ => True

section
variable [DecidableEq O] [DecidableEq E] [DecidableEq R] [Fintype R] (program : Program O E R)

/-- One call, by a CPU whose turn it is in its cycle. -/
inductive SchedulerStep : Machine n E R → SchedulerOp n E R → Machine n E R → Prop
  | releaseStack {m cpu} (hphase : m.phase cpu = .dispatching) :
      SchedulerStep m (.releaseStack cpu)
        ⟨m.system.releaseStack cpu, Function.update m.phase cpu .waiting⟩
  | dispatchEvent {m cpu task s'} (hphase : m.phase cpu = .waiting)
      (hcall : m.system.dispatchEvent program cpu = .ok (task, s')) :
      SchedulerStep m (.dispatchEvent cpu) ⟨s', Function.update m.phase cpu
        (if task = none then .waiting else .executing)⟩
  | eventTaskFinished {m cpu s'} (hphase : m.phase cpu = .executing)
      (hcall : m.system.eventTaskFinished program cpu = .ok s') :
      SchedulerStep m (.eventTaskFinished cpu) ⟨s', Function.update m.phase cpu .dispatching⟩
  | eventTriggered {m event arg s'}
      (hcall : m.system.eventTriggered program event arg = .ok s') :
      SchedulerStep m (.eventTriggered event arg) { m with system := s' }
  | interruptEventTriggered {m event arg s'}
      (hcall : m.system.interruptEventTriggered program event arg = .ok s') :
      SchedulerStep m (.interruptEventTriggered event arg) { m with system := s' }
  | callOSCTrigger {m trigger arg s'}
      (hcall : m.system.callOSCTrigger program trigger arg = .ok s') :
      SchedulerStep m (.callOSCTrigger trigger arg) { m with system := s' }
  | subscribeEvent {m event trigger s'}
      (hfree : ∀ e l, (m.system.subscriptions.mSubscribers e).Rep
        m.system.subscriptions.triggerLinks l → trigger ∉ l)
      (hcall : m.system.subscriptions.subscribeEvent event trigger = .ok s') :
      SchedulerStep m (.subscribeEvent event trigger)
        { m with system := { m.system with subscriptions := s' } }
  | unsubscribeEvent {m event trigger s'}
      (hcall : m.system.subscriptions.unsubscribeEvent event trigger = .ok s') :
      SchedulerStep m (.unsubscribeEvent event trigger)
        { m with system := { m.system with subscriptions := s' } }

end

/-- The tasks are where `place` says, and the tables of the CPUs agree with their phases. -/
structure Working (program : Program O E R) (proviso : Prop) (m : Machine n E R)
    (place : Task → Place n) : Prop where
  placed : Placed program proviso m.system.tasks place
  hand : ∀ t, place t ≠ .inHand
  stacksHeld : StacksHeld m.system.pStackPointers m.system.stackPool
  executing : ∀ cpu, m.phase cpu = .executing ↔ m.system.tasks.pActiveEventTask cpu ≠ none
  waiting : ∀ cpu, m.phase cpu = .waiting → m.system.pStackPointers cpu = none

/-- The invariant of all runs. -/
structure Conserved (program : Program O E R) (proviso : Prop) (m : Machine n E R) : Prop where
  settled : Settled program proviso m.system.tasks
  subscribed : Subscribed m.system.subscriptions
  stacksHeld : StacksHeld m.system.pStackPointers m.system.stackPool
  executing : ∀ cpu, m.phase cpu = .executing ↔ m.system.tasks.pActiveEventTask cpu ≠ none
  waiting : ∀ cpu, m.phase cpu = .waiting → m.system.pStackPointers cpu = none

section
variable {program : Program O E R} {proviso : Prop} {m m' : Machine n E R}
  {place place' : Task → Place n} {cpu : Fin n} {s' : System n E R}

/-- A step that leaves the table of active tasks and the stacks alone. -/
theorem Working.frame (h : Working program proviso m place)
    (hplaced : Placed program proviso s'.tasks place') (hhand : ∀ t, place' t ≠ .inHand)
    (hact : s'.tasks.pActiveEventTask = m.system.tasks.pActiveEventTask)
    (hptr : s'.pStackPointers = m.system.pStackPointers)
    (hpool : s'.stackPool = m.system.stackPool) :
    Working program proviso { m with system := s' } place' where
  placed := hplaced
  hand := hhand
  stacksHeld := by
    rw [hptr, hpool]
    exact h.stacksHeld
  executing := by
    rw [hact]
    exact h.executing
  waiting := by
    rw [hptr]
    exact h.waiting

/-- A step of one CPU in its cycle: only its entries of the two tables change. -/
theorem Working.cycle {phase : Phase} {o : Option Task} (h : Working program proviso m place)
    (hplaced : Placed program proviso s'.tasks place') (hhand : ∀ t, place' t ≠ .inHand)
    (hstacks : StacksHeld s'.pStackPointers s'.stackPool)
    (hact : s'.tasks.pActiveEventTask = Function.update m.system.tasks.pActiveEventTask cpu o)
    (hphase : phase = .executing ↔ o ≠ none)
    (hwaiting : phase = .waiting → s'.pStackPointers cpu = none)
    (hother : ∀ cpu', cpu' ≠ cpu → s'.pStackPointers cpu' = m.system.pStackPointers cpu') :
    Working program proviso ⟨s', Function.update m.phase cpu phase⟩ place' := by
  refine ⟨hplaced, hhand, hstacks, fun cpu' => ?_, fun cpu' hw => ?_⟩ <;> by_cases hc : cpu' = cpu
  · subst hc
    simpa [hact] using hphase
  · simpa [hact, hc] using h.executing cpu'
  · subst hc
    exact hwaiting (by simpa using hw)
  · rw [hother cpu' hc]
    exact h.waiting cpu' (by simpa [hc] using hw)

theorem Working.idle (h : Working program proviso m place) (hphase : m.phase cpu ≠ .executing) :
    m.system.tasks.pActiveEventTask cpu = none := by
  by_contra hne
  exact hphase ((h.executing cpu).mpr hne)

theorem Working.releaseStack (h : Working program proviso m place)
    (hphase : m.phase cpu = .dispatching) : Working program proviso
      ⟨m.system.releaseStack cpu, Function.update m.phase cpu .waiting⟩ place := by
  obtain ⟨htasks, hsub, hstacks, hptr⟩ := System.releaseStack_spec h.stacksHeld cpu
  have hself := Function.update_eq_self cpu m.system.tasks.pActiveEventTask
  rw [h.idle (by simp [hphase])] at hself
  refine h.cycle (o := none) (htasks ▸ h.placed) h.hand hstacks ?_ (by simp)
    (fun _ => by simp [hptr]) fun cpu' hc => by simp [hptr, hc]
  rw [htasks, hself]

/-- Looking for a task changes no job. -/
theorem Working.dispatchEvent [DecidableEq O] {task : Option Task}
    (h : Working program proviso m place) (hphase : m.phase cpu = .waiting)
    (hcall : m.system.dispatchEvent program cpu = .ok (task, s')) :
    ∃ place', Working program proviso ⟨s', Function.update m.phase cpu
        (if task = none then .waiting else .executing)⟩ place' ∧
      s'.tasks.jobs place' = m.system.tasks.jobs place ∧
      s'.subscriptions = m.system.subscriptions ∧ s'.tasks.pActiveEventTask =
        Function.update m.system.tasks.pActiveEventTask cpu task := by
  obtain ⟨⟨place', h', hhand', hjobs⟩, hsub, hact, hstacks, hptr⟩ := Exec.Sat.of_eq_ok hcall
    (System.dispatchEvent_spec h.placed h.hand h.stacksHeld (h.idle (by simp [hphase]))
      (h.waiting cpu hphase))
  refine ⟨place', h.cycle h' hhand' hstacks hact ?_ (fun hw => ?_)
    fun cpu' hc => hptr cpu' (.inl hc), hjobs, hsub, hact⟩
  · cases task <;> simp
  · have hnone : task = none := by
      by_contra hne
      simp [hne] at hw
    rw [hptr cpu (.inr hnone)]
    exact h.waiting cpu hphase

/-- Raising an event gives the walk from its first subscriber on tasks of the pool. -/
theorem Working.raise [Fintype R] {pool : TaskQueue n} {event : E} {arg : UInt32}
    (h : Working program proviso m place) (hpool : ∀ cpuNo, pool ≠ .mFifoQueue cpuNo)
    (hraise : proviso → program.returnPool event = pool)
    (hcall : m.system.raise program pool event arg = .ok s') :
    ∃ news place', Working program proviso { m with system := s' } place' ∧
      Transition.Run (Gives program pool event arg) (m.system.tasks, place) news
        (s'.tasks, place') ∧
      news.map Prod.snd = Queue.walk m.system.subscriptions.triggerLinks
        (m.system.tasks.queues pool).pSize ((m.system.subscriptions.mSubscribers event).get
          m.system.subscriptions.triggerLinks 0) ∧
      s' = { m.system with tasks := s'.tasks } := by
  obtain ⟨news, place', h', hhand', hrun, hwalk, heq⟩ := Exec.Sat.of_eq_ok hcall
    (System.raise_spec h.placed h.hand hpool hraise)
  refine ⟨news, place', h.frame h' hhand' (Gives.active_run hrun) ?_ ?_, hrun, hwalk, heq⟩
  · rw [heq]
  · rw [heq]

/-- A direct call gives a task to its trigger, unless the pool is empty. -/
theorem Working.callOSCTrigger {trigger : R} {arg : UInt32}
    (h : Working program proviso m place)
    (hcall : m.system.callOSCTrigger program trigger arg = .ok s') :
    (s' = m.system ∧ (m.system.tasks.queues .pEventTaskPoolQueue).pSize = 0) ∨
      ∃ t place', Working program proviso { m with system := s' } place' ∧
        Gives program .pEventTaskPoolQueue program.pDummyEvent arg (m.system.tasks, place)
          (t, trigger) (s'.tasks, place') ∧ s' = { m.system with tasks := s'.tasks } := by
  rcases Exec.Sat.of_eq_ok hcall (System.callOSCTrigger_spec h.placed h.hand) with
    hnone | ⟨t, place', h', hhand', hgives, heq⟩
  · exact .inl hnone
  · refine .inr ⟨t, place', h.frame h' hhand' hgives.active ?_ ?_, hgives, heq⟩
    · rw [heq]
    · rw [heq]

theorem Conserved.exists_working (h : Conserved program proviso m) :
    ∃ place, Working program proviso m place := by
  obtain ⟨place, hplaced, hhand⟩ := h.settled
  exact ⟨place, hplaced, hhand, h.stacksHeld, h.executing, h.waiting⟩

theorem Working.conserved (h : Working program proviso m place)
    (hsub : Subscribed m.system.subscriptions) : Conserved program proviso m :=
  ⟨⟨place, h.placed, h.hand⟩, hsub, h.stacksHeld, h.executing, h.waiting⟩

theorem Conserved.idle (h : Conserved program proviso m) (hphase : m.phase cpu ≠ .executing) :
    m.system.tasks.pActiveEventTask cpu = none := by
  obtain ⟨place, hworking⟩ := h.exists_working
  exact hworking.idle hphase

theorem Conserved.dispatchEvent [DecidableEq O] {task : Option Task}
    (h : Conserved program proviso m) (hphase : m.phase cpu = .waiting)
    (hcall : m.system.dispatchEvent program cpu = .ok (task, s')) : Conserved program proviso
      ⟨s', Function.update m.phase cpu (if task = none then .waiting else .executing)⟩ := by
  obtain ⟨place, hworking⟩ := h.exists_working
  obtain ⟨place', h', -, hsub, -⟩ := hworking.dispatchEvent hphase hcall
  exact h'.conserved (hsub ▸ h.subscribed)

theorem Conserved.eventTaskFinished [DecidableEq E] [DecidableEq R] [Fintype R]
    (h : Conserved program proviso m) (hphase : m.phase cpu = .executing)
    (hcall : m.system.eventTaskFinished program cpu = .ok s') :
    Conserved program proviso ⟨s', Function.update m.phase cpu .dispatching⟩ := by
  obtain ⟨place₀, hworking⟩ := h.exists_working
  obtain ⟨t, ht⟩ := Option.ne_none_iff_exists'.mp ((h.executing cpu).mp hphase)
  obtain ⟨⟨place, pool, hplaced, hhand, -⟩, hact, hsub, hptr, hpool⟩ := Exec.Sat.of_eq_ok hcall
    (System.eventTaskFinished_sat h.settled h.subscribed ht)
  refine (hworking.cycle hplaced (fun a => ?_) ?_ hact (by simp) (by simp) fun _ _ => by
    rw [hptr]).conserved hsub
  · by_cases hat : a = t
    · simp [hat]
    · simpa [hat] using hhand a
  · rw [hptr, hpool]
    exact h.stacksHeld

theorem Conserved.raise [Fintype R] {pool : TaskQueue n} {event : E} {arg : UInt32}
    (h : Conserved program proviso m) (hpool : ∀ cpuNo, pool ≠ .mFifoQueue cpuNo)
    (hraise : proviso → program.returnPool event = pool)
    (hcall : m.system.raise program pool event arg = .ok s') :
    Conserved program proviso { m with system := s' } := by
  obtain ⟨place, hworking⟩ := h.exists_working
  obtain ⟨news, place', h', -, -, heq⟩ := hworking.raise hpool hraise hcall
  refine h'.conserved ?_
  rw [heq]
  exact h.subscribed

theorem Conserved.callOSCTrigger {trigger : R} {arg : UInt32} (h : Conserved program proviso m)
    (hcall : m.system.callOSCTrigger program trigger arg = .ok s') :
    Conserved program proviso { m with system := s' } := by
  obtain ⟨place, hworking⟩ := h.exists_working
  rcases hworking.callOSCTrigger hcall with ⟨rfl, -⟩ | ⟨t, place', h', -, heq⟩
  · exact h
  · refine h'.conserved ?_
    rw [heq]
    exact h.subscribed

theorem Conserved.subscriptions {s₁ : Subscriptions E R} (h : Conserved program proviso m)
    (hsub : Subscribed s₁) :
    Conserved program proviso { m with system := { m.system with subscriptions := s₁ } } :=
  ⟨h.settled, hsub, h.stacksHeld, h.executing, h.waiting⟩

variable [DecidableEq O] [DecidableEq E] [DecidableEq R] [Fintype R]

theorem Conserved.step {op : SchedulerOp n E R} (h : Conserved program proviso m)
    (hop : proviso → op.RaisedByType program) (hstep : SchedulerStep program m op m') :
    Conserved program proviso m' := by
  cases hstep with
  | @releaseStack cpu hphase =>
    obtain ⟨place, hworking⟩ := h.exists_working
    have hsub := (System.releaseStack_spec h.stacksHeld cpu).2.1
    exact (hworking.releaseStack hphase).conserved (hsub ▸ h.subscribed)
  | dispatchEvent hphase hcall => exact h.dispatchEvent hphase hcall
  | eventTaskFinished hphase hcall => exact h.eventTaskFinished hphase hcall
  | eventTriggered hcall =>
    exact h.raise (by simp) (fun hprov => if_neg (hop hprov)) hcall
  | interruptEventTriggered hcall =>
    exact h.raise (by simp) (fun hprov => if_pos (hop hprov)) hcall
  | callOSCTrigger hcall => exact h.callOSCTrigger hcall
  | subscribeEvent hfree hcall =>
    exact h.subscriptions (Exec.Sat.of_eq_ok hcall (h.subscribed.subscribeEvent hfree))
  | unsubscribeEvent hcall =>
    exact h.subscriptions (Exec.Sat.of_eq_ok hcall h.subscribed.unsubscribeEvent)

/-- What a step preserves, a run preserves; the proviso is about the calls of the run. -/
theorem Conserved.run {ls : List (SchedulerOp n E R)} (h : Conserved program proviso m)
    (hrun : Transition.Run (SchedulerStep program) m ls m')
    (hls : proviso → ∀ op ∈ ls, op.RaisedByType program) : Conserved program proviso m' := by
  induction hrun with
  | nil => exact h
  | snoc _ hstep ih =>
    refine (ih fun hprov op hop => hls hprov op (by simp [hop])).step (fun hprov => ?_) hstep
    exact hls hprov _ (by simp)

/-- If every trigger has a destination, no call of the cycle gets stuck. -/
theorem Conserved.enabled (h : Conserved program proviso m) (hdest : ¬ NoDestination program)
    (cpu : Fin n) : ∃ op m', op ∈ [.releaseStack cpu, .dispatchEvent cpu, .eventTaskFinished cpu] ∧
      SchedulerStep program m op m' := by
  cases hphase : m.phase cpu with
  | dispatching => exact ⟨_, _, by simp, .releaseStack hphase⟩
  | waiting =>
    obtain ⟨⟨task, s'⟩, hcall, -⟩ := (System.dispatchEvent_sat h.settled h.stacksHeld
      (h.idle (by simp [hphase])) (h.waiting cpu hphase)).exists_eq_ok hdest
    exact ⟨_, _, by simp, .dispatchEvent hphase hcall⟩
  | executing =>
    obtain ⟨t, ht⟩ := Option.ne_none_iff_exists'.mp ((h.executing cpu).mp hphase)
    obtain ⟨s', hcall, -⟩ :=
      (System.eventTaskFinished_sat h.settled h.subscribed ht).exists_eq_ok id
    exact ⟨_, _, by simp, .eventTaskFinished hphase hcall⟩

end

/-! ## One place for every task -/

/-- A position is found by walking a queue, or in the table of active tasks. -/
inductive Position (n : Nat)
  | queue (q : TaskQueue n) (pos : Nat)
  | active (cpu : Fin n)

def System.At (s : System n E R) : Position n → Task → Prop
  | .queue q pos, t => (s.tasks.queues q).get s.tasks.links pos = some t
  | .active cpu, t => s.tasks.pActiveEventTask cpu = some t

section
variable {program : Program O E R} {proviso : Prop} {s : System n E R} {place : Task → Place n}

/-- A task is at a position of a queue exactly if its place is the queue, and then at one. -/
theorem Placed.at_queue (h : Placed program proviso s.tasks place) (q : TaskQueue n) (t : Task) :
    (place t = .queue q ↔ ∃ pos, s.At (.queue q pos) t) ∧
      ∀ pos pos', s.At (.queue q pos) t → s.At (.queue q pos') t → pos = pos' := by
  obtain ⟨lists, hfam, hmem⟩ := h.linked
  refine ⟨?_, fun pos pos' hpos hpos' => (hfam.rep q).get_inj hpos hpos'⟩
  rw [← hmem]
  exact (hfam.rep q).mem_iff_get

theorem Settled.existsUnique_position (h : Settled program proviso s.tasks) (t : Task) :
    ∃! p, s.At p t := by
  obtain ⟨place, hplaced, hhand⟩ := h
  cases ht : place t with
  | inHand => exact (hhand t ht).elim
  | active cpu =>
    refine ⟨.active cpu, (hplaced.active cpu t).mpr ht, fun p hp => ?_⟩
    cases p with
    | active cpu' =>
      rw [(hplaced.active cpu' t).mp hp] at ht
      rw [Place.active.inj ht]
    | queue q pos =>
      rw [(hplaced.at_queue q t).1.mpr ⟨pos, hp⟩] at ht
      cases ht
  | queue q =>
    obtain ⟨pos, hpos⟩ := (hplaced.at_queue q t).1.mp ht
    refine ⟨.queue q pos, hpos, fun p hp => ?_⟩
    cases p with
    | active cpu' =>
      rw [(hplaced.active cpu' t).mp hp] at ht
      cases ht
    | queue q' pos' =>
      have hq' := (hplaced.at_queue q' t).1.mpr ⟨pos', hp⟩
      rw [hq'] at ht
      obtain rfl := Place.queue.inj ht
      rw [(hplaced.at_queue q' t).2 pos' pos hp hpos]

end

section
variable [DecidableEq O] [DecidableEq E] [DecidableEq R] [Fintype R] {program : Program O E R}
  {s : System n E R} {m : Machine n E R} {subscriptions : Subscriptions E R}

omit [DecidableEq O] [DecidableEq E] [DecidableEq R] [Fintype R] in
theorem Conserved.boot {proviso : Prop} (hsub : Subscribed subscriptions)
    (hboot : System.boot subscriptions = .ok s) :
    Conserved program proviso ⟨s, fun _ => .dispatching⟩ := by
  obtain ⟨hplaced, -, -, hsame, hstacks, hact⟩ :=
    Exec.Sat.of_eq_ok hboot (System.boot_sat subscriptions)
  exact ⟨⟨_, hplaced, by simp⟩, hsame ▸ hsub, hstacks, by simp [hact], by simp⟩

/-- From the constructors on, over every interleaving of the dispatch cycles of all CPUs with events
and direct calls: the queues are well formed, every task is at exactly one position, and if
interrupt events are raised as such and no others are, tasks are only found in the pool they come
from, where a finished task returns to. -/
theorem task_conservation {ls : List (SchedulerOp n E R)} (hsub : Subscribed subscriptions)
    (hboot : System.boot subscriptions = .ok s)
    (hrun : Transition.Run (SchedulerStep program) ⟨s, fun _ => .dispatching⟩ ls m) :
    (∀ q, ∃ l, (m.system.tasks.queues q).Rep m.system.tasks.links l) ∧
      (∀ t, ∃! p, m.system.At p t) ∧
      ((∀ op ∈ ls, op.RaisedByType program) →
        (∀ t q pos, m.system.At (.queue q pos) t → q = t.home ∨ ∃ cpuNo, q = .mFifoQueue cpuNo) ∧
        ∀ cpu t m', m.system.tasks.pActiveEventTask cpu = some t →
          SchedulerStep program m (.eventTaskFinished cpu) m' →
          ∃ pos, m'.system.At (.queue t.home pos) t) := by
  have hinv : Conserved program (∀ op ∈ ls, op.RaisedByType program) m :=
    (Conserved.boot hsub hboot).run hrun id
  refine ⟨fun q => ?_, hinv.settled.existsUnique_position, fun hls => ⟨fun t q pos hpos => ?_,
    fun cpu t m' ht hstep => ?_⟩⟩
  · obtain ⟨place, hplaced, -⟩ := hinv.settled
    obtain ⟨lists, hfam, -⟩ := hplaced.linked
    exact ⟨lists q, hfam.rep q⟩
  · obtain ⟨place, hplaced, -⟩ := hinv.settled
    exact hplaced.home hls t q ((hplaced.at_queue q t).1.mpr ⟨pos, hpos⟩)
  · cases hstep with
    | eventTaskFinished hphase hcall =>
      obtain ⟨⟨place, pool, hplaced, -, hpool⟩, -⟩ := Exec.Sat.of_eq_ok hcall
        (System.eventTaskFinished_sat hinv.settled hinv.subscribed ht)
      have hat : Function.update place t (.queue pool) t = .queue pool := by simp
      rcases hplaced.home hls t pool hat with rfl | ⟨cpuNo, e⟩
      · exact (hplaced.at_queue _ t).1.mp hat
      · exact (hpool cpuNo e).elim

end

/-- One component with one trigger, an event nobody has subscribed to, and the dummy event. -/
def oneTrigger : Program Unit Bool Unit where
  trigger _ := { pDestinationOSC := some (), pDeps := ⟨[none], DepArray.none_mem⟩, pPriority := 1 }
  pType event := if event then .softwareEvent else .dummyCallEvent
  mTimerEventType _ := .oneshot
  pDummyEvent := false
  pDummyEvent_pType := rfl

def noSubscribers : Subscriptions Bool Unit where
  triggerLinks := .zeroed
  mSubscribers _ := Queue.new
  timerEventLinks := .zeroed
  mOneshotEventPool := Queue.new

/-- One of two CPUs dispatches the task of a call of the trigger, and finishes it. -/
def oneTriggerCycle (cpu : Fin 2) : Exec (Option Task × System 2 Bool Unit) := do
  let s ← System.boot noSubscribers
  let s ← s.callOSCTrigger oneTrigger () 7
  let (task, s) ← (s.releaseStack cpu).dispatchEvent oneTrigger cpu
  let _ ← s.eventTaskFinished oneTrigger cpu
  pure (task, s)

/-- The task is active at first, and in its home pool when it is finished. -/
theorem task_conservation_oneTrigger : ∃ (s : System 2 Bool Unit) (m m' : Machine 2 Bool Unit)
    (t : Task),
    System.boot noSubscribers = .ok s ∧
      Transition.Run (SchedulerStep oneTrigger) ⟨s, fun _ => .dispatching⟩
        [.callOSCTrigger () 7, .releaseStack 0, .dispatchEvent 0] m ∧
      m.system.tasks.pActiveEventTask 0 = some t ∧ (∃! p, m.system.At p t) ∧
      SchedulerStep oneTrigger m (.eventTaskFinished 0) m' ∧
      ∃ pos, m'.system.At (.queue t.home pos) t := by
  have hcycle : (oneTriggerCycle 0).toOption.any fun r =>
      r.1.isSome && r.2.tasks.pActiveEventTask 0 == r.1 := by
    decide +kernel
  obtain ⟨⟨task, s₂⟩, hok, hactive⟩ := (Option.any_eq_true _ _).mp hcycle
  simp only [Exec.toOption_eq_some, oneTriggerCycle, Exec.bind_eq_ok, Exec.pure_eq,
    Except.ok.injEq] at hok
  obtain ⟨s, hboot, s₁, hcalled, r, hdispatched, s₃, hfinished, hsame⟩ := hok
  obtain rfl : r = (task, s₂) := hsame
  rw [Bool.and_eq_true, beq_iff_eq] at hactive
  obtain ⟨t, rfl⟩ := Option.isSome_iff_exists.mp hactive.1
  have hsub : Subscribed noSubscribers :=
    ⟨⟨fun _ => [], fun _ => Queue.Rep.new _, by simp⟩, fun _ => rfl⟩
  let waiting : Fin 2 → Phase := Function.update (fun _ => .dispatching) 0 .waiting
  let m : Machine 2 Bool Unit := ⟨s₂, Function.update waiting 0 .executing⟩
  have hrun₁ : Transition.Run (SchedulerStep oneTrigger) ⟨s, fun _ => .dispatching⟩
      [.callOSCTrigger () 7] ⟨s₁, fun _ => .dispatching⟩ := .single (.callOSCTrigger hcalled)
  have hrun₂ := hrun₁.snoc (l := .releaseStack 0) (.releaseStack rfl)
  have hdispatches : SchedulerStep oneTrigger ⟨s₁.releaseStack 0, waiting⟩ (.dispatchEvent 0) m := by
    have hstep : SchedulerStep oneTrigger ⟨s₁.releaseStack 0, waiting⟩ (.dispatchEvent 0) ⟨s₂, _⟩ :=
      .dispatchEvent (by simp [waiting]) (by exact hdispatched)
    rwa [if_neg (Option.some_ne_none t)] at hstep
  have hrun₃ := hrun₂.snoc hdispatches
  have hfinishes : SchedulerStep oneTrigger m (.eventTaskFinished 0) _ :=
    .eventTaskFinished (by simp [m]) hfinished
  obtain ⟨-, hposition, hhome⟩ := task_conservation hsub hboot hrun₃
  exact ⟨s, _, _, t, hboot, hrun₃, hactive.2, hposition t, hfinishes,
    (hhome (by simp [SchedulerOp.RaisedByType])).2 0 t _ hactive.2 hfinishes⟩

end CyPhOS
