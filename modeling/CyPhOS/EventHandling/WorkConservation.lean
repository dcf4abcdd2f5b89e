import Mathlib.Algebra.GroupWithZero.Nat
import CyPhOS.EventHandling.Conservation
import CyPhOS.EventHandling.Strategy

/-! # Which task is dispatched next

A ready queue holds the tasks in the order of their priorities, and those of one priority in the
order of their arrival (`ReadyQueue`). While the active tasks of the other CPUs stay, the scan of
`dequeueHighestPriority` finds the first task that is free among those that lead their priority: a
refused lock makes it skip the others of that priority. That is the earliest free task of the highest
priority exactly if this priority is led by a free task (`StableOrder.LeadsWell`).
-/

namespace CyPhOS

open LinkedList StableOrder EventPriorityQueue

variable {n : Nat} {T O E R : Type} [DecidableEq O]

/-- No OSC of the task is in use. -/
def Free (trigger : T → Option (Trigger O)) (pActiveEventTask : Fin n → Option T) (task : T) :
    Prop :=
  ¬ OSCsInUse trigger pActiveEventTask task

section
variable {trigger : T → Option (Trigger O)} {pActiveEventTask : Fin n → Option T} {cpu : Fin n}
  {task : T}

/-- A call on a CPU without an active task locks a task that is free, and no other. -/
theorem tryTaskLock_free_sat (htask : (trigger task).isSome)
    (hactive : ∀ cpu t, pActiveEventTask cpu = some t → (trigger t).isSome)
    (hcpu : pActiveEventTask cpu = none) :
    (tryTaskLock trigger pActiveEventTask cpu task).Sat
      (∃ tr, trigger task = some tr ∧ tr.pDestinationOSC = none) fun (locked, s') =>
        if locked then Free trigger pActiveEventTask task ∧
          s' = Function.update pActiveEventTask cpu (some task)
        else ¬ Free trigger pActiveEventTask task ∧ s' = pActiveEventTask := by
  have hreason : ∀ tr, trigger task = some tr → tr.pDestinationOSC = none →
      ∃ tr, trigger task = some tr ∧ tr.pDestinationOSC = none :=
    fun tr htr hdest => ⟨tr, htr, hdest⟩
  have hsat := tryTaskLock_sat htask hactive hcpu hreason
  cases hcall : tryTaskLock trigger pActiveEventTask cpu task with
  | error e =>
    rw [hcall] at hsat
    cases e with
    | hang => exact hsat
    | nullDereference => exact hsat
  | ok res =>
    obtain ⟨locked, s'⟩ := res
    rw [hcall] at hsat
    have hiff := tryTaskLock_refused_iff hactive hcpu hcall
    cases locked with
    | true => exact ⟨fun huse => by simpa using hiff.mpr huse, hsat⟩
    | false => exact ⟨fun hfree => hfree (hiff.mp rfl), hsat⟩

variable [DecidableEq T] [Fintype T]

omit [DecidableEq T] in
/-- The scan of the rest `ys` of a queue. -/
theorem lockFrom_leads {k : QueueElements T} {q : Queue T} {xs ys : List T} {fuel : Nat}
    (h : q.Rep k (xs ++ ys)) (hfuel : ys.length ≤ fuel)
    (hsorted : ys.Pairwise fun x y => level trigger x ≤ level trigger y)
    (htriggered : ∀ t ∈ xs ++ ys, (trigger t).isSome)
    (hactive : ∀ cpu t, pActiveEventTask cpu = some t → (trigger t).isSome)
    (hcpu : pActiveEventTask cpu = none) :
    (lockFrom (nextLevel trigger k) (fun active t => tryTaskLock trigger active cpu t) fuel ys.head?
      pActiveEventTask).Sat (∃ t ∈ ys, ∃ tr, trigger t = some tr ∧ tr.pDestinationOSC = none)
        fun (ret, active) =>
          ret = none ∧ active = pActiveEventTask ∧
            (∀ t, Leads (level trigger) ys t → ¬ Free trigger pActiveEventTask t) ∨
          ∃ t, ret = some t ∧ active = Function.update pActiveEventTask cpu (some t) ∧
            LeadsFirst (level trigger) (Free trigger pActiveEventTask) ys t := by
  induction fuel generalizing xs ys with
  | zero =>
    cases List.length_eq_zero_iff.mp (Nat.le_zero.mp hfuel)
    exact .inl ⟨rfl, rfl, fun t ht => (List.not_mem_nil ht.mem).elim⟩
  | succ fuel ih =>
    cases ys with
    | nil => exact .inl ⟨rfl, rfl, fun t ht => (List.not_mem_nil ht.mem).elim⟩
    | cons a ys =>
      have htry := tryTaskLock_free_sat (htriggered a (by simp)) hactive hcpu
      refine (htry.weaken fun hdest => ⟨a, by simp, hdest⟩).bind fun ⟨locked, s'⟩ hres => ?_
      cases locked with
      | true =>
        obtain ⟨hfree, rfl⟩ := hres
        refine .inr ⟨a, rfl, rfl, (leads_cons hsorted).mpr (.inl rfl), hfree, fun b hb _ => ?_⟩
        rcases (leads_cons hsorted).mp hb with rfl | hb
        · exact le_rfl
        · exact (lt_of_mem_dropWhile_eq hsorted hb.mem).le
      | false =>
        obtain ⟨hused, rfl⟩ := hres
        simp only [nextLevel_eq h htriggered, Exec.ok_bind, Bool.false_eq_true, if_false]
        -- the scan goes on behind the tasks of this priority
        set zs := ys.takeWhile fun t => decide (level trigger t = level trigger a)
        set ws := ys.dropWhile fun t => decide (level trigger t = level trigger a) with hws
        have hsplit : ys = zs ++ ws := List.takeWhile_append_dropWhile.symm
        have hsub : ws.Sublist ys := List.dropWhile_sublist _
        have hrep : q.Rep k ((xs ++ a :: zs) ++ ws) := by simpa [← hsplit] using h
        have hlen : ws.length ≤ fuel :=
          hsub.length_le.trans (Nat.le_of_succ_le_succ hfuel)
        have hrest := ih hrep hlen ((List.pairwise_cons.mp hsorted).2.sublist hsub)
          (by simpa [← hsplit] using htriggered)
        refine (hrest.weaken fun ⟨t, ht, hdest⟩ => ⟨t, .tail a (hsub.subset ht), hdest⟩).mono ?_
        intro ⟨ret, active⟩ hres
        rcases hres with ⟨hret, hsame, hnone⟩ | ⟨t, hret, hsame, hlead⟩
        · refine .inl ⟨hret, hsame, fun t ht => ?_⟩
          rcases (leads_cons hsorted).mp ht with rfl | ht
          · exact hused
          · exact hnone t ht
        · refine .inr ⟨t, hret, hsame, (leads_cons hsorted).mpr (.inr hlead.leads), hlead.sat,
            fun b hb hfree => ?_⟩
          rcases (leads_cons hsorted).mp hb with rfl | hb
          · exact (hused hfree).elim
          · exact hlead.le b hb hfree

end

/-! ## Ready queues -/

/-- The queue holds the tasks that have arrived, sorted by their priorities. -/
structure ReadyQueue [DecidableEq T] (trigger : T → Option (Trigger O)) (k : QueueElements T)
    (q : Queue T) (arrivals : List T) : Prop where
  triggered : ∀ t ∈ arrivals, (trigger t).isSome
  sorts : ∃ l, q.Rep k l ∧ Sorts (level trigger) l arrivals

section
variable [DecidableEq T] [Fintype T] {trigger : T → Option (Trigger O)}
  {pActiveEventTask : Fin n → Option T} {cpu : Fin n} {k : QueueElements T} {q : Queue T}
  {arrivals : List T} {a : T}

omit [DecidableEq O] [Fintype T] in
theorem ReadyQueue.new : ReadyQueue trigger k Queue.new [] :=
  ⟨by simp, [], Queue.Rep.new k, Sorts.nil⟩

omit [DecidableEq O] in
theorem ReadyQueue.enqueue (h : ReadyQueue trigger k q arrivals) (ha : a ∉ arrivals)
    (htriggered : (trigger a).isSome) : ∃ k' q', enqueue trigger k q a = .ok (k', q') ∧
      ReadyQueue trigger k' q' (arrivals ++ [a]) := by
  obtain ⟨l, hrep, hsorts⟩ := h.sorts
  obtain ⟨tr, htr⟩ := Option.isSome_iff_exists.mp htriggered
  have hl : ∀ t ∈ l, (trigger t).isSome := fun t ht => h.triggered t (hsorts.mem_iff.mp ht)
  obtain ⟨k', q', hok, hrep', -⟩ :=
    enqueue_spec hrep (fun hmem => ha (hsorts.mem_iff.mp hmem)) htr hl
  rw [enqueue_list htr hl] at hrep'
  refine ⟨k', q', hok, ?_, _, hrep', hsorts.insert a⟩
  intro t ht
  rcases List.mem_append.mp ht with ht | ht
  · exact h.triggered t ht
  · rwa [List.mem_singleton.mp ht]

/-- The scan takes out the first free task among those that lead their priority. -/
theorem ReadyQueue.dequeueHighestPriority_sat (h : ReadyQueue trigger k q arrivals)
    (hactive : ∀ cpu t, pActiveEventTask cpu = some t → (trigger t).isSome)
    (hcpu : pActiveEventTask cpu = none) :
    (dequeueHighestPriority trigger (fun active t => tryTaskLock trigger active cpu t) k q
      pActiveEventTask).Sat (∃ t ∈ arrivals, ∃ tr, trigger t = some tr ∧ tr.pDestinationOSC = none)
        fun (ret, k', q', active) =>
          (ret = none ∧ k' = k ∧ q' = q ∧ active = pActiveEventTask ∧
            ∀ t, Leads (level trigger) arrivals t → ¬ Free trigger pActiveEventTask t) ∨
          ∃ t, ret = some t ∧ ReadyQueue trigger k' q' (arrivals.erase t) ∧
            active = Function.update pActiveEventTask cpu (some t) ∧
            LeadsFirst (level trigger) (Free trigger pActiveEventTask) arrivals t := by
  obtain ⟨l, hrep, hsorts⟩ := h.sorts
  have hl : ∀ t ∈ [] ++ l, (trigger t).isSome := fun t ht => h.triggered t (hsorts.mem_iff.mp ht)
  have hall : q.Rep k ([] ++ l) := hrep
  have hscan := lockFrom_leads hall hrep.nodup.length_le_card hsorts.sorted hl hactive hcpu
  rw [dequeueHighestPriority, hrep.head, lockFirst_eq_lockFrom]
  refine (hscan.weaken ?_).bind ?_
  · rintro ⟨t, ht, hdest⟩
    exact ⟨t, hsorts.mem_iff.mp ht, hdest⟩
  rintro ⟨ret, active⟩ (⟨rfl, rfl, hnone⟩ | ⟨t, rfl, rfl, hlead⟩)
  · exact .inl ⟨rfl, rfl, rfl, rfl, fun t ht => hnone t (hsorts.leads_iff.mpr ht)⟩
  · obtain ⟨xs, ys, rfl⟩ := List.append_of_mem hlead.leads.mem
    obtain ⟨k', q', hremove, hrep', -⟩ := hrep.removeElementFromList
    have hout : t ∉ xs := fun hin => (List.nodup_append.mp hrep.nodup).2.2 t hin t (by simp) rfl
    have hsorts' := hsorts.erase t
    rw [List.erase_append_right _ hout, List.erase_cons_head] at hsorts'
    simp only [hremove, Exec.pure_eq, Exec.sat_ok]
    refine .inr ⟨t, rfl, ⟨fun u hu => h.triggered u (List.mem_of_mem_erase hu), _, hrep', hsorts'⟩,
      rfl, hsorts.leads_iff.mp hlead.leads, hlead.sat, fun u hu => ?_⟩
    exact hlead.le u (hsorts.leads_iff.mpr hu)

end

/-! ## A round of the scheduler -/

section
variable {program : Program O E R} {s : Tasks n E R} {cpu : Fin n} {cpuNo : Fin (n + 1)}
  {arrivals own global : List Task}

/-- A reason for `tryTaskLock` to hang on one of the tasks. -/
def SomeNoDestination (program : Program O E R) (s : Tasks n E R) (arrivals : List Task) : Prop :=
  ∃ t ∈ arrivals, ∃ tr, s.trigger program t = some tr ∧ tr.pDestinationOSC = none

theorem Tasks.dequeueReady_leads
    (h : ReadyQueue (s.trigger program) s.links (s.queues (.mFifoQueue cpuNo)) arrivals)
    (hactive : ∀ cpu t, s.pActiveEventTask cpu = some t → (s.trigger program t).isSome)
    (hcpu : s.pActiveEventTask cpu = none) :
    (s.dequeueReady program cpu cpuNo).Sat (SomeNoDestination program s arrivals) fun (ret, s') =>
      ret = none ∧ s' = s ∧ (∀ t, Leads (level (s.trigger program)) arrivals t →
        ¬ Free (s.trigger program) s.pActiveEventTask t) ∨
      ∃ t, ret = some t ∧ Leads (level (s.trigger program)) arrivals t ∧
        Free (s.trigger program) s.pActiveEventTask t := by
  refine (h.dequeueHighestPriority_sat hactive hcpu).bind ?_
  intro ⟨ret, k', q', active⟩ hres
  rcases hres with ⟨rfl, rfl, rfl, rfl, hnone⟩ | ⟨t, rfl, -, rfl, hlead⟩
  · refine .inl ⟨rfl, ?_, hnone⟩
    simp [Tasks.setQueue]
  · exact .inr ⟨t, rfl, hlead.leads, hlead.sat⟩

theorem Tasks.getLocalOrGlobalEvent_leads
    (hown : ReadyQueue (s.trigger program) s.links (s.queues (.mFifoQueue cpu.castSucc)) own)
    (hglobal : ReadyQueue (s.trigger program) s.links (s.queues (.mFifoQueue (Fin.last n))) global)
    (hactive : ∀ cpu t, s.pActiveEventTask cpu = some t → (s.trigger program t).isSome)
    (hcpu : s.pActiveEventTask cpu = none) :
    (s.getLocalOrGlobalEvent program cpu).Sat (SomeNoDestination program s (own ++ global))
      fun (ret, _) => ret = none ↔ ∀ t, Leads (level (s.trigger program)) own t ∨
        Leads (level (s.trigger program)) global t →
          ¬ Free (s.trigger program) s.pActiveEventTask t := by
  have hleft : SomeNoDestination program s own → SomeNoDestination program s (own ++ global) :=
    fun ⟨t, ht, hdest⟩ => ⟨t, List.mem_append_left _ ht, hdest⟩
  have hright : SomeNoDestination program s global → SomeNoDestination program s (own ++ global) :=
    fun ⟨t, ht, hdest⟩ => ⟨t, List.mem_append_right _ ht, hdest⟩
  refine ((Tasks.dequeueReady_leads hown hactive hcpu).weaken hleft).bind ?_
  intro ⟨ret, s'⟩ hres
  rcases hres with ⟨rfl, rfl, hnone⟩ | ⟨t, rfl, hlead, hfree⟩
  · refine ((Tasks.dequeueReady_leads hglobal hactive hcpu).weaken hright).mono ?_
    intro ⟨ret, s''⟩ hres
    rcases hres with ⟨rfl, -, hnone'⟩ | ⟨t, rfl, hlead, hfree⟩
    · exact ⟨fun _ t ht => ht.elim (hnone t) (hnone' t), fun _ => rfl⟩
    · exact ⟨nofun, fun hall => (hall t (.inr hlead) hfree).elim⟩
  · exact ⟨nofun, fun hall => (hall t (.inl hlead) hfree).elim⟩

omit [DecidableEq O] in
/-- A stack is found as long as the CPU holds none. -/
theorem provideStack_isSome {pStackPointers : Fin n → Option Nat} {pool : StackPool}
    (h : StacksHeld pStackPointers pool) (hsp : pStackPointers cpu = none)
    (pStackpointer : Option Nat) :
    ∃ sp pool', pool.provideStack n pStackpointer = .ok (some sp, pool') := by
  cases pStackpointer with
  | some sp => exact ⟨sp, pool, rfl⟩
  | none =>
    have hn : 0 < n := Nat.lt_of_le_of_lt (Nat.zero_le _) cpu.isLt
    obtain ⟨i, -, -, hget⟩ := StackPool.getFreeStack_spec (h.pointer hn) (h.exists_free hsp)
    exact ⟨i, _, hget⟩

/-- What a CPU finds that looks for a task: the two queues it looks into, an active table without a
task of its own, and no stack in its hands. -/
structure Searching (program : Program O E R) (s : System n E R) (cpu : Fin n)
    (own global : List Task) : Prop where
  own : ReadyQueue (s.tasks.trigger program) s.tasks.links
    (s.tasks.queues (.mFifoQueue cpu.castSucc)) own
  global : ReadyQueue (s.tasks.trigger program) s.tasks.links
    (s.tasks.queues (.mFifoQueue (Fin.last n))) global
  active : ∀ cpu t, s.tasks.pActiveEventTask cpu = some t → (s.tasks.trigger program t).isSome
  idle : s.tasks.pActiveEventTask cpu = none
  held : StacksHeld s.pStackPointers s.stackPool
  noStack : s.pStackPointers cpu = none

/-- `getEvent` returns a task exactly if a free one leads its priority in one of the queues. -/
theorem Searching.getEvent {s : System n E R} (h : Searching program s cpu own global) :
    (s.getEvent program cpu).Sat (SomeNoDestination program s.tasks (own ++ global)) fun (ret, _) =>
      ret = none ↔ ∀ t, Leads (level (s.tasks.trigger program)) own t ∨
        Leads (level (s.tasks.trigger program)) global t →
          ¬ Free (s.tasks.trigger program) s.tasks.pActiveEventTask t := by
  refine (Tasks.getLocalOrGlobalEvent_leads h.own h.global h.active h.idle).bind ?_
  intro ⟨ret, tasks⟩ hiff
  cases ret with
  | none => exact hiff
  | some t =>
    obtain ⟨sp, pool, hstack⟩ :=
      provideStack_isSome h.held h.noStack (tasks.eventTask t).pStackpointer
    simp only [hstack, Exec.ok_bind, reduceCtorEq, if_false, Exec.pure_eq, Exec.sat_ok]
    simpa using hiff

end

/-- The choice that a dequeue should make: the earliest free task of the highest priority. -/
def PicksEarliest (trigger : T → Option (Trigger O)) (pActiveEventTask : Fin n → Option T)
    (arrivals : List T) : Option T → Prop
  | some t => Earliest (level trigger) (Free trigger pActiveEventTask) arrivals t
  | none => ∀ t ∈ arrivals, ¬ Free trigger pActiveEventTask t

/-- What is left after a dequeue: the task returned has been removed and is active, and without a
task nothing has changed. -/
def Leaves [DecidableEq T] (trigger : T → Option (Trigger O)) (pActiveEventTask : Fin n → Option T)
    (cpu : Fin n) (k : QueueElements T) (q : Queue T) (arrivals : List T) :
    Option T × QueueElements T × Queue T × (Fin n → Option T) → Prop
  | (some t, k', q', active) => ReadyQueue trigger k' q' (arrivals.erase t) ∧
      active = Function.update pActiveEventTask cpu (some t)
  | (none, k', q', active) => k' = k ∧ q' = q ∧ active = pActiveEventTask

/-- No task is returned only if no task is free. -/
def NoneOnlyIfNoneFree (trigger : T → Option (Trigger O)) (pActiveEventTask : Fin n → Option T)
    (arrivals : List T) (ret : Option T) : Prop :=
  ret = none → ∀ t ∈ arrivals, ¬ Free trigger pActiveEventTask t

/-- As soon as a task of the two queues is free, a free task leads its priority in one of them. -/
def OneLeads (trigger : T → Option (Trigger O)) (pActiveEventTask : Fin n → Option T)
    (own global : List T) : Prop :=
  (∃ t ∈ own ++ global, Free trigger pActiveEventTask t) →
    ∃ t, (Leads (level trigger) own t ∨ Leads (level trigger) global t) ∧
      Free trigger pActiveEventTask t

/-- The scan makes this choice exactly if the highest priority of a free task is led by a free
task. -/
theorem ReadyQueue.picksEarliest_iff [DecidableEq T] [Fintype T]
    {trigger : T → Option (Trigger O)} {pActiveEventTask : Fin n → Option T} {cpu : Fin n}
    {k : QueueElements T} {q : Queue T} {arrivals : List T}
    (h : ReadyQueue trigger k q arrivals)
    (hactive : ∀ cpu t, pActiveEventTask cpu = some t → (trigger t).isSome)
    (hcpu : pActiveEventTask cpu = none) :
    (dequeueHighestPriority trigger (fun active t => tryTaskLock trigger active cpu t) k q
      pActiveEventTask).Sat (∃ t ∈ arrivals, ∃ tr, trigger t = some tr ∧ tr.pDestinationOSC = none)
        fun res => (LeadsWell (level trigger) (Free trigger pActiveEventTask) arrivals ↔
          PicksEarliest trigger pActiveEventTask arrivals res.1) ∧
          Leaves trigger pActiveEventTask cpu k q arrivals res := by
  refine (h.dequeueHighestPriority_sat hactive hcpu).mono ?_
  intro ⟨ret, k', q', active⟩ hres
  rcases hres with ⟨rfl, hk, hq, hsame, hnone⟩ | ⟨t, rfl, hqueue', hsame, hlead⟩
  · exact ⟨leadsWell_iff_of_none hnone, hk, hq, hsame⟩
  · exact ⟨hlead.leadsWell_iff, hqueue', hsame⟩

/-- With the active tasks of the other CPUs fixed, `dequeueHighestPriority` picks the earliest free
task of the highest priority exactly if the highest priority of a free task is led by a free task;
and `getEvent` returns no task only if neither queue has a free one, exactly if some priority of one
of the queues is led by a free task as soon as there is a free task. -/
theorem work_conservation [DecidableEq T] [Fintype T] {trigger : T → Option (Trigger O)}
    {pActiveEventTask : Fin n → Option T} {cpu cpu' : Fin n} {k : QueueElements T} {q : Queue T}
    {arrivals : List T} {O' : Type} [DecidableEq O'] {program : Program O' E R} {s : System n E R}
    {own global : List Task}
    (hqueue : ReadyQueue trigger k q arrivals)
    (hactive : ∀ cpu t, pActiveEventTask cpu = some t → (trigger t).isSome)
    (hcpu : pActiveEventTask cpu = none) (hsearching : Searching program s cpu' own global) :
    ((dequeueHighestPriority trigger (fun active t => tryTaskLock trigger active cpu t) k q
      pActiveEventTask).Sat (∃ t ∈ arrivals, ∃ tr, trigger t = some tr ∧ tr.pDestinationOSC = none)
        fun res => (LeadsWell (level trigger) (Free trigger pActiveEventTask) arrivals ↔
          PicksEarliest trigger pActiveEventTask arrivals res.1) ∧
          Leaves trigger pActiveEventTask cpu k q arrivals res) ∧
    (s.getEvent program cpu').Sat (SomeNoDestination program s.tasks (own ++ global))
      fun (ret, _) =>
        OneLeads (s.tasks.trigger program) s.tasks.pActiveEventTask own global ↔
          NoneOnlyIfNoneFree (s.tasks.trigger program) s.tasks.pActiveEventTask (own ++ global)
            ret := by
  refine ⟨hqueue.picksEarliest_iff hactive hcpu, hsearching.getEvent.mono ?_⟩
  intro ⟨ret, s'⟩ (hret : ret = none ↔ _)
  simp only [NoneOnlyIfNoneFree, hret]
  constructor
  · intro hsome hnone t ht hfree
    obtain ⟨u, hu, hufree⟩ := hsome ⟨t, ht, hfree⟩
    exact hnone u hu hufree
  · rintro hnone ⟨t, ht, hfree⟩
    by_contra hnot
    simp only [not_exists, not_and] at hnot
    exact hnone hnot t ht hfree

/-- For the numbers of the CPUs. -/
local instance two_cpus : NeZero 2 := ⟨Nat.succ_ne_zero 1⟩

/-- For the numbers of the tasks. -/
local instance three_tasks : NeZero 3 := ⟨Nat.succ_ne_zero 2⟩

/-- Three tasks of one priority; the first and the last are for the same component. -/
def onePriority (task : Fin 3) : Option (Trigger Nat) :=
  some { pDestinationOSC := some (task.val % 2)
         pDeps := ⟨[none], DepArray.none_mem⟩
         pPriority := 1 }

/-- The last task is active on the second CPU. -/
def lastActive : Fin 2 → Option (Fin 3) := Function.update (fun _ => none) 1 (some 2)

/-- The first two tasks have been enqueued. -/
def queued : List (Fin 3) := [0, 1]

theorem onePriority_queue : ∃ k q, ReadyQueue onePriority k q queued := by
  have hnew : ReadyQueue onePriority (.zeroed : QueueElements (Fin 3)) Queue.new [] := .new
  obtain ⟨k₁, q₁, -, hqueue₁⟩ := hnew.enqueue (a := 0) (by simp) rfl
  obtain ⟨k₂, q₂, -, hqueue₂⟩ := hqueue₁.enqueue (a := 1) (by simp) rfl
  exact ⟨k₂, q₂, hqueue₂⟩

/-- A system with tasks for its one trigger, of which those of `queue` wait in the global queue. -/
def globalQueue (links : QueueElements Task) (queue : Queue Task) : System 2 Bool Unit where
  tasks := {
    links
    eventTask := fun _ => { event := none, trigger := some (), pTimestamp := 0, pEnqueued := false,
                            mArg := 0, pStackpointer := none }
    queues := Function.update (fun _ => Queue.new) (.mFifoQueue (Fin.last 2)) queue
    pActiveEventTask := fun _ => none
    pLastEventID := 0 }
  subscriptions := noSubscribers
  pStackPointers _ := none
  stackPool := StackPool.new

theorem globalQueue_searching {arrivals : List Task} {links : QueueElements Task} {queue : Queue Task}
    (h : ReadyQueue (fun _ => some (oneTrigger.trigger ())) links queue arrivals) :
    Searching oneTrigger (globalQueue links queue) 0 [] arrivals where
  own := .new
  global := h
  active := by simp [globalQueue]
  idle := rfl
  held := ⟨fun _ => Nat.zero_lt_two, by simp [globalQueue, StackPool.new], by simp [globalQueue],
    by simp [globalQueue]⟩
  noStack := rfl

/-- Two tasks in the queue, and one in the global queue that `getEvent` looks into. -/
theorem work_conservation_onePriority : ∃ k q links queue, ReadyQueue onePriority k q queued ∧
    ((dequeueHighestPriority onePriority
      (fun active t => tryTaskLock onePriority active (0 : Fin 2) t) k q lastActive).Sat
        (∃ t ∈ queued, ∃ tr, onePriority t = some tr ∧ tr.pDestinationOSC = none)
        fun res => (LeadsWell (level onePriority) (Free onePriority lastActive) queued ↔
          PicksEarliest onePriority lastActive queued res.1) ∧
          Leaves onePriority lastActive 0 k q queued res) ∧
    ∃ (task : Task) (ret : Option Task) (s' : System 2 Bool Unit),
      Searching oneTrigger (globalQueue links queue) 0 [] [task] ∧
      (globalQueue links queue).getEvent oneTrigger 0 = .ok (ret, s') ∧
      (OneLeads ((globalQueue links queue).tasks.trigger oneTrigger)
          (globalQueue links queue).tasks.pActiveEventTask [] [task] ↔
        NoneOnlyIfNoneFree ((globalQueue links queue).tasks.trigger oneTrigger)
          (globalQueue links queue).tasks.pActiveEventTask [task] ret) := by
  obtain ⟨k, q, hqueue⟩ := onePriority_queue
  have task : Task := .pEventTasks ⟨0, by decide⟩
  have hnew : ReadyQueue (fun _ => some (oneTrigger.trigger ())) (.zeroed : QueueElements Task)
      Queue.new [] := .new
  obtain ⟨links, queue, -, hglobal⟩ := hnew.enqueue (a := task) (by simp) rfl
  have hactive : ∀ cpu t, lastActive cpu = some t → (onePriority t).isSome := fun _ _ _ => rfl
  have hidle : lastActive 0 = none := rfl
  have hsearching : Searching oneTrigger (globalQueue links queue) 0 [] [task] :=
    globalQueue_searching hglobal
  have hdestination : ¬ SomeNoDestination oneTrigger (globalQueue links queue).tasks
      ([] ++ [task]) := by
    rintro ⟨t, -, tr, htr, hnone⟩
    cases htr
    cases hnone
  have hboth := work_conservation hqueue hactive hidle hsearching
  -- the call is not to be evaluated here
  generalize hcall : (globalQueue links queue).getEvent oneTrigger 0 = result at hboth
  obtain ⟨hdequeue, hget⟩ := hboth
  obtain ⟨⟨ret, s'⟩, rfl, hiff⟩ := hget.exists_eq_ok hdestination
  exact ⟨k, q, links, queue, hqueue, hdequeue, task, ret, s', hsearching, hcall, hiff⟩

/-- The second task in the queue is free, but the first one, of the same priority, is not: nothing
is dequeued. -/
theorem dequeueHighestPriority_skips_level :
    ¬ ∀ (k : QueueElements (Fin 3)) (q : Queue (Fin 3)) (arrivals : List (Fin 3)),
      ReadyQueue onePriority k q arrivals →
        (dequeueHighestPriority onePriority
          (fun active t => tryTaskLock onePriority active (0 : Fin 2) t) k q lastActive).Sat False
            fun (ret, _) => PicksEarliest onePriority lastActive arrivals ret := by
  intro hall
  obtain ⟨k, q, hqueue⟩ := onePriority_queue
  obtain ⟨res, hres, hpicks⟩ := (hall k q queued hqueue).exists_eq_ok id
  have hactive : ∀ cpu t, lastActive cpu = some t → (onePriority t).isSome := fun _ _ _ => rfl
  have hidle : lastActive 0 = none := rfl
  have hiff := Exec.Sat.of_eq_ok hres (hqueue.picksEarliest_iff hactive hidle)
  have hwell := hiff.1.mpr hpicks
  have hused : OSCsInUse onePriority lastActive 0 :=
    ⟨1, 2, rfl, by simp [taskOSCs, onePriority, Trigger.oscSet]⟩
  have hfree : Free onePriority lastActive 1 := by
    rintro ⟨cpu, active, hactive, hdisj⟩
    rcases eq_or_ne cpu 1 with rfl | hne
    · cases hactive
      exact hdisj (by simp [taskOSCs, onePriority, Trigger.oscSet, Trigger.depSet])
    · rw [lastActive, Function.update_of_ne hne] at hactive
      cases hactive
  exact hwell 1 (by simp [queued]) hfree (fun _ _ _ => le_rfl) 0 rfl rfl hused

end CyPhOS
