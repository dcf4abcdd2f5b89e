import CyPhOS.EventHandling.EventHandler
import CyPhOS.Lib.StableOrder

/-! # Scheduling strategies

`MultiQueuePriorityStrategy` and `MultiFifoStrategy` keep the ready tasks in several queues. They
differ in the queue that a task goes to, the queues that a CPU looks through, the place of a new
task in its queue, and the task that a scan tries after one whose lock was refused. A `Strategy` is
these four together with what the scheduler relies on: that the queues stay what they are meant to
be, that no task is put in front of one of its own trigger, and that a scan goes forward.
-/

namespace CyPhOS

variable {n : Nat} {O T σ : Type}

/-- Try the tasks from one on, `next` after each refused lock. -/
def lockFrom (next : T → Exec (Option T)) (tryTaskLock : σ → T → Exec (Bool × σ)) :
    Nat → Option T → σ → Exec (Option T × σ)
  | _, none, s => .ok (none, s)
  | 0, some _, _ => .error .hang
  | fuel + 1, some task, s => do
    let (locked, s) ← tryTaskLock s task
    if locked then pure (some task, s)
    else lockFrom next tryTaskLock fuel (← next task) s

/-! ## The priority queue -/

namespace EventPriorityQueue

variable (trigger : T → Option (Trigger O))

/-- Where the scan goes after a refused lock: over all tasks of that priority. -/
def nextLevel [Fintype T] (k : QueueElements T) (retEl : T) : Exec (Option T) := do
  let curPriority := (← derefTrigger trigger retEl).pPriority
  walkTasks trigger k (fun tr => tr.pPriority != curPriority) (Fintype.card T) (some retEl)

theorem lockFirst_eq_lockFrom [Fintype T] (tryTaskLock : σ → T → Exec (Bool × σ))
    (k : QueueElements T) (fuel : Nat) (retEl : Option T) (s : σ) :
    lockFirst trigger tryTaskLock k fuel retEl s =
      lockFrom (nextLevel trigger k) tryTaskLock fuel retEl s := by
  induction fuel generalizing retEl s with
  | zero => cases retEl <;> rfl
  | succ fuel ih =>
    cases retEl with
    | none => rfl
    | some retEl =>
      simp only [lockFirst, lockFrom, nextLevel, bind_assoc, ih]

/-- The key by which the queue is sorted: the highest priority comes first. -/
def level (t : T) : ℕᵒᵈ :=
  OrderDual.toDual (((trigger t).map (·.pPriority)).getD Trigger.cInvalid_Priority)

variable {trigger} {k : QueueElements T} {q : Queue T} {l : List T} {t u : T} {tr : Trigger O}

theorem level_eq (h : trigger t = some tr) : level trigger t = OrderDual.toDual tr.pPriority := by
  rw [level, h]
  rfl

theorem level_congr {trigger' : T → Option (Trigger O)} (h : trigger' t = trigger t) :
    level trigger' t = level trigger t := by
  rw [level, level, h]

theorem hasPriority_eq (ht : trigger t = some tr) (hu : (trigger u).isSome) :
    hasPriority trigger tr.pPriority u = decide (level trigger u = level trigger t) := by
  obtain ⟨other, hother⟩ := Option.isSome_iff_exists.mp hu
  simp [hasPriority, level_eq ht, level_eq hother, hother, bne, Bool.beq_eq_decide_eq]

theorem staysInFront_eq (ht : trigger t = some tr) (hu : (trigger u).isSome) :
    staysInFront trigger tr.pPriority u = !decide (level trigger t < level trigger u) := by
  obtain ⟨other, hother⟩ := Option.isSome_iff_exists.mp hu
  simp [staysInFront, level_eq ht, level_eq hother, hother]

/-- `enqueue` inserts into the sorted list, behind the tasks of the same priority. -/
theorem enqueue_list (ht : trigger t = some tr) (hl : ∀ u ∈ l, (trigger u).isSome) :
    l.takeWhile (staysInFront trigger tr.pPriority) ++
        t :: l.dropWhile (staysInFront trigger tr.pPriority) =
      l.orderedInsert (fun x y => level trigger x < level trigger y) t := by
  induction l with
  | nil => rfl
  | cons u l ih =>
    have hstays := staysInFront_eq ht (hl u (by simp))
    rw [List.orderedInsert_cons, ← ih fun u hu => hl u (.tail _ hu)]
    split
    · next hlt => simp [hstays, hlt]
    · next hge => simp [hstays, hge]

/-- The scan skips the tasks that have the priority of the refused one. -/
theorem nextLevel_eq [Fintype T] {xs ys : List T} (h : q.Rep k (xs ++ t :: ys))
    (hl : ∀ u ∈ xs ++ t :: ys, (trigger u).isSome) :
    nextLevel trigger k t =
      .ok (ys.dropWhile fun u => level trigger u = level trigger t).head? := by
  obtain ⟨tr, htr⟩ := Option.isSome_iff_exists.mp (hl t (by simp))
  have hseg := (LinkedList.seg_append.mp h.seg).2
  have hys : ∀ u ∈ t :: ys, (trigger u).isSome := fun u hu => hl u (by simp [List.mem_cons.mp hu])
  have hnodup := (List.nodup_append.mp h.nodup).2.1
  have hwalk := walkTasks_eq (fun other => other.pPriority != tr.pPriority) hseg
    hnodup.length_le_card hys
  rw [List.head?_cons] at hwalk
  rw [nextLevel, derefTrigger_eq_ok.mpr htr, Exec.ok_bind, hwalk]
  have hskip : (ys.dropWhile (hasPriority trigger tr.pPriority)) =
      ys.dropWhile fun u => level trigger u = level trigger t :=
    StableOrder.dropWhile_congr fun u hu => hasPriority_eq htr (hys u (.tail _ hu))
  rw [← hskip]
  exact congrArg (fun l => Except.ok (List.head? l))
    (List.dropWhile_cons_of_pos (by simp [htr]))

end EventPriorityQueue

/-! ## The plain queue -/

namespace EventQueue

/-- The loop of `dequeueFirstLocked` goes on to the next task. -/
def next (k : QueueElements T) (event : T) : Exec (Option T) := .ok (k.pNext event)

def dequeueFirstLocked [DecidableEq T] [Fintype T] (tryTaskLock : σ → T → Exec (Bool × σ))
    (k : QueueElements T) (q : Queue T) (s : σ) :
    Exec (Option T × QueueElements T × Queue T × σ) := do
  match ← lockFrom (next k) tryTaskLock (Fintype.card T) q.pHead s with
  | (none, s) => pure (none, k, q, s)
  | (some event, s) =>
    let (k, q) := q.removeElementFromList k event
    pure (some event, k, q, s)

theorem next_eq {k : QueueElements T} {q : Queue T} {xs ys : List T} {t : T}
    (h : q.Rep k (xs ++ t :: ys)) : next k t = .ok ys.head? := by
  rw [next, h.next_eq]

end EventQueue

/-! ## Strategies -/

/-- What distinguishes a scheduling strategy. `Kept` is what its queues are at all times. -/
structure Strategy (n : Nat) (O T Q : Type) [DecidableEq T] [Fintype T] where
  queueOf : Trigger O → EventType → Q
  scanned : Fin n → List Q
  enqueue : (T → Option (Trigger O)) → QueueElements T → Queue T → T →
    Exec (QueueElements T × Queue T)
  next : (T → Option (Trigger O)) → QueueElements T → T → Exec (Option T)
  Kept : (T → Option (Trigger O)) → List T → Prop
  kept_nil : ∀ trigger, Kept trigger []
  kept_sublist : ∀ {trigger l m}, Kept trigger l → m.Sublist l → Kept trigger m
  kept_congr : ∀ {trigger trigger' l}, (∀ t ∈ l, trigger' t = trigger t) → Kept trigger l →
    Kept trigger' l
  enqueue_spec : ∀ {trigger k q l a}, Queue.Rep k q l → Kept trigger l → a ∉ l →
    (∀ t ∈ a :: l, (trigger t).isSome) → ∃ k' q' xs ys, enqueue trigger k q a = .ok (k', q') ∧
      l = xs ++ ys ∧ q'.Rep k' (xs ++ a :: ys) ∧ AgreeOff (a :: l) k k' ∧
      Kept trigger (xs ++ a :: ys) ∧ ∀ t ∈ ys, trigger t ≠ trigger a
  next_spec : ∀ {trigger k q xs t ys}, Queue.Rep k q (xs ++ t :: ys) →
    (∀ u ∈ xs ++ t :: ys, (trigger u).isSome) →
    ∃ zs ws, ys = zs ++ ws ∧ next trigger k t = .ok ws.head?

section
variable [DecidableEq T] [Fintype T]

/-- One queue for each CPU and one for all of them, in the order of the priorities. -/
def multiQueuePriorityStrategy : Strategy n O T (Fin (n + 1)) where
  queueOf trigger _ := Tasks.readyQueue trigger.pAffinity
  scanned cpu := [cpu.castSucc, Fin.last n]
  enqueue trigger k q eventtask := EventPriorityQueue.enqueue trigger k q eventtask
  next trigger k retEl := EventPriorityQueue.nextLevel trigger k retEl
  Kept trigger l := l.Pairwise fun x y =>
    EventPriorityQueue.level trigger x ≤ EventPriorityQueue.level trigger y
  kept_nil _ := List.Pairwise.nil
  kept_sublist h hsub := h.sublist hsub
  kept_congr hcongr h := h.imp_of_mem fun hx hy hle => by
    rwa [EventPriorityQueue.level_congr (hcongr _ hx), EventPriorityQueue.level_congr (hcongr _ hy)]
  enqueue_spec {trigger k q l a} h hkept ha hl := by
    obtain ⟨tr, htr⟩ := Option.isSome_iff_exists.mp (hl a (by simp))
    have hrest : ∀ t ∈ l, (trigger t).isSome := fun t ht => hl t (.tail a ht)
    obtain ⟨k', q', hok, hrep, hagree⟩ := EventPriorityQueue.enqueue_spec h ha htr hrest
    refine ⟨k', q', _, _, hok, List.takeWhile_append_dropWhile.symm, hrep, hagree, ?_, ?_⟩
    · rw [EventPriorityQueue.enqueue_list htr hrest]
      exact StableOrder.sorted_orderedInsert hkept
    · have hdrop := StableOrder.dropWhile_congr fun t ht =>
        EventPriorityQueue.staysInFront_eq htr (hrest t ht)
      rw [hdrop]
      intro t ht e
      have hlt := StableOrder.lt_of_mem_dropWhile hkept ht
      rw [EventPriorityQueue.level, EventPriorityQueue.level, e] at hlt
      exact lt_irrefl _ hlt
  next_spec h hl :=
    ⟨_, _, List.takeWhile_append_dropWhile.symm, EventPriorityQueue.nextLevel_eq h hl⟩

/-- The queues of the fifo strategy. -/
inductive FifoQueue (n : Nat)
  | mFifoInterruptQueue (cpuNo : Fin (n + 1))
  | mFifoQueue (cpuNo : Fin (n + 1))
  deriving DecidableEq

/-- Two queues for each CPU and two for all of them, in the order of arrival. -/
def multiFifoStrategy : Strategy n O T (FifoQueue n) where
  queueOf trigger pType :=
    let cpuNo := Tasks.readyQueue trigger.pAffinity
    if pType = .interruptEvent then .mFifoInterruptQueue cpuNo else .mFifoQueue cpuNo
  scanned cpu := [.mFifoInterruptQueue cpu.castSucc, .mFifoQueue cpu.castSucc,
    .mFifoInterruptQueue (Fin.last n), .mFifoQueue (Fin.last n)]
  enqueue _ k q eventtask := q.enqueue k eventtask
  next _ k event := EventQueue.next k event
  Kept _ _ := True
  kept_nil _ := trivial
  kept_sublist _ _ := trivial
  kept_congr _ _ := trivial
  enqueue_spec {trigger k q l a} h _ ha _ := by
    obtain ⟨k', q', hok, hrep, hagree⟩ := h.enqueue ha
    exact ⟨k', q', l, [], hok, by simp, hrep, hagree, trivial, by simp⟩
  next_spec h _ := ⟨[], _, rfl, EventQueue.next_eq h⟩

end

end CyPhOS
