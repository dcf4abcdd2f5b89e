import CyPhOS.EventHandling.Strategy

/-! # A priority queue over sequences of calls

`PriorityStep` are the calls on an `EventPriorityQueue` in which nobody enqueues a queued task or
removes one that is not queued. `PriorityInv.step` is what each of them keeps; `PriorityRun.sorted`
is the order of the queue after any number of them.

`dequeueHead`, which no caller uses, is the first removal written a second time. It is not
`dequeueFirst`: unless the queue is empty it leaves links behind that `dequeueFirst` clears.
-/

namespace CyPhOS

open StableOrder Transition

variable {T O : Type} [DecidableEq T]

/-! ## Calls -/

/-- The queue, the triggers of the tasks, and the tasks that were enqueued and not removed since, in
the order of their enqueue. -/
structure PriorityState (T O : Type) where
  trigger : T → Option (Trigger O)
  links : QueueElements T
  queue : Queue T
  arrivals : List T

/-- `tryTaskLock` is asked for each task at most once in a scan, so that its outcomes are a function
of the task. A task gets its trigger when it is taken from its pool. -/
inductive PriorityCall (T O : Type)
  | enqueue (eventtask : T)
  | dequeueHighestPriority (tryTaskLock : T → Bool)
  | removeElementFromList (element : T)
  | setTrigger (eventtask : T) (trigger : Trigger O)

namespace PriorityCall

/-- The task that `dequeueHighestPriority` returns has left the queue. -/
def call [Fintype T] (s : PriorityState T O) : PriorityCall T O → Exec (PriorityState T O)
  | enqueue eventtask => do
    let (links, queue) ← EventPriorityQueue.enqueue s.trigger s.links s.queue eventtask
    pure { s with links := links, queue := queue, arrivals := s.arrivals ++ [eventtask] }
  | dequeueHighestPriority tryTaskLock => do
    let (task, links, queue, _) ← EventPriorityQueue.dequeueHighestPriority s.trigger
      (fun (_ : Unit) t => pure (tryTaskLock t, ())) s.links s.queue ()
    pure { s with
      links := links, queue := queue, arrivals := task.elim s.arrivals s.arrivals.erase }
  | removeElementFromList element =>
    let (links, queue) := s.queue.removeElementFromList s.links element
    pure { s with links := links, queue := queue, arrivals := s.arrivals.erase element }
  | setTrigger eventtask trigger =>
    pure { s with trigger := Function.update s.trigger eventtask (some trigger) }

/-- What the scheduler keeps to. -/
def Proper (s : PriorityState T O) : PriorityCall T O → Prop
  | enqueue eventtask => eventtask ∉ s.arrivals ∧ (s.trigger eventtask).isSome
  | dequeueHighestPriority _ => True
  | removeElementFromList element => element ∈ s.arrivals
  | setTrigger eventtask _ => eventtask ∉ s.arrivals

end PriorityCall

def PriorityStep [Fintype T] (s : PriorityState T O) (c : PriorityCall T O)
    (s' : PriorityState T O) : Prop :=
  c.Proper s ∧ c.call s = .ok s'

/-- An empty queue. -/
def PriorityState.new (trigger : T → Option (Trigger O)) (links : QueueElements T) :
    PriorityState T O :=
  { trigger := trigger, links := links, queue := Queue.new, arrivals := [] }

/-! ## The order of the queue -/

/-- The queue is the list `l` of the tasks in `arrivals`, in the order of their priorities. -/
structure PriorityInv (s : PriorityState T O) (l : List T) : Prop where
  rep : s.queue.Rep s.links l
  sorts : Sorts (EventPriorityQueue.level s.trigger) l s.arrivals
  nodup : s.arrivals.Nodup
  triggers : ∀ t ∈ l, (s.trigger t).isSome

namespace PriorityInv

variable {s : PriorityState T O} {l : List T} {t : T}

omit [DecidableEq T] in
theorem new (trigger : T → Option (Trigger O)) (links : QueueElements T) :
    PriorityInv (PriorityState.new trigger links) [] :=
  ⟨Queue.Rep.new links, .nil, List.nodup_nil, by simp⟩

theorem enqueue [Fintype T] (h : PriorityInv s l) (hnew : t ∉ s.arrivals)
    (htr : (s.trigger t).isSome) :
    ∃ s', (PriorityCall.enqueue t).call s = .ok s' ∧ ∃ l', PriorityInv s' l' := by
  obtain ⟨tr, htr⟩ := Option.isSome_iff_exists.mp htr
  have hnot : t ∉ l := fun hin => hnew (h.sorts.mem_iff.mp hin)
  obtain ⟨k', q', hok, hrep, -⟩ := EventPriorityQueue.enqueue_spec h.rep hnot htr h.triggers
  rw [EventPriorityQueue.enqueue_list htr h.triggers] at hrep
  refine ⟨_, by rw [PriorityCall.call, hok]; rfl, _, hrep, h.sorts.insert t, ?_, ?_⟩
  · exact List.nodup_append.mpr ⟨h.nodup, List.nodup_singleton t, by rintro a ha _ hb rfl; simp_all⟩
  · intro u hu
    rcases (List.mem_orderedInsert _).mp hu with rfl | hu
    · exact Option.isSome_of_mem htr
    · exact h.triggers u hu

/-- A task that leaves the queue leaves the arrivals. -/
theorem erase {xs ys : List T} {k' : QueueElements T} {q' : Queue T}
    (h : PriorityInv s (xs ++ t :: ys)) (hrep : q'.Rep k' (xs ++ ys)) :
    PriorityInv { s with links := k', queue := q', arrivals := s.arrivals.erase t } (xs ++ ys) := by
  have hxs : t ∉ xs := fun hin => (List.nodup_append.mp h.rep.nodup).2.2 _ hin _ (by simp) rfl
  have herase : (xs ++ t :: ys).erase t = xs ++ ys := by
    rw [List.erase_append_right _ hxs, List.erase_cons_head]
  refine ⟨hrep, herase ▸ h.sorts.erase t, h.nodup.erase t, fun u hu => h.triggers u ?_⟩
  rw [List.mem_append] at hu ⊢
  exact hu.imp_right (List.mem_cons_of_mem _)

theorem dequeueHighestPriority [Fintype T] (h : PriorityInv s l) (tryTaskLock : T → Bool) :
    ∃ s', (PriorityCall.dequeueHighestPriority tryTaskLock).call s = .ok s' ∧
      ∃ l', PriorityInv s' l' := by
  have hsat : (EventPriorityQueue.dequeueHighestPriority s.trigger
      (fun (_ : Unit) t => pure (tryTaskLock t, ())) s.links s.queue ()).Sat False _ :=
    EventPriorityQueue.dequeueHighestPriority_sat (J := fun _ => True) (G := fun _ _ => True)
      h.rep h.triggers trivial fun t _ _ _ => by cases tryTaskLock t <;> trivial
  obtain ⟨⟨task, k', q', ⟨⟩⟩, hok, hres⟩ := hsat.exists_eq_ok not_false
  refine ⟨_, by rw [PriorityCall.call, hok]; rfl, ?_⟩
  rcases hres with ⟨rfl, rfl, rfl, -⟩ | ⟨t, xs, ys, rfl, rfl, hrep, -, -⟩
  · exact ⟨l, h⟩
  · exact ⟨xs ++ ys, h.erase hrep⟩

theorem removeElementFromList [Fintype T] (h : PriorityInv s l) (hmem : t ∈ s.arrivals) :
    ∃ s', (PriorityCall.removeElementFromList t).call s = .ok s' ∧ ∃ l', PriorityInv s' l' := by
  obtain ⟨xs, ys, rfl⟩ := List.append_of_mem (h.sorts.mem_iff.mpr hmem)
  obtain ⟨k', q', hok, hrep, -⟩ := h.rep.removeElementFromList
  refine ⟨_, by rw [PriorityCall.call, hok]; rfl, xs ++ ys, h.erase hrep⟩

theorem setTrigger (h : PriorityInv s l) (hnew : t ∉ s.arrivals) (tr : Trigger O) :
    PriorityInv { s with trigger := Function.update s.trigger t (some tr) } l := by
  have hkeeps : ∀ u ∈ l, Function.update s.trigger t (some tr) u = s.trigger u := by
    intro u hu
    have hne : u ≠ t := by
      rintro rfl
      exact hnew (h.sorts.mem_iff.mp hu)
    exact Function.update_of_ne hne _ _
  refine ⟨h.rep, h.sorts.congr fun u hu => ?_, h.nodup, fun u hu => ?_⟩
  · exact EventPriorityQueue.level_congr (hkeeps u hu)
  · exact (congrArg Option.isSome (hkeeps u hu)).trans (h.triggers u hu)

/-- A proper call returns and keeps the order. -/
theorem call [Fintype T] (h : PriorityInv s l) (c : PriorityCall T O) (hproper : c.Proper s) :
    ∃ s', c.call s = .ok s' ∧ ∃ l', PriorityInv s' l' := by
  cases c with
  | enqueue eventtask => exact h.enqueue hproper.1 hproper.2
  | dequeueHighestPriority tryTaskLock => exact h.dequeueHighestPriority tryTaskLock
  | removeElementFromList element => exact h.removeElementFromList hproper
  | setTrigger eventtask trigger => exact ⟨_, rfl, l, h.setTrigger hproper trigger⟩

end PriorityInv

/-! ## Runs -/

section
variable [Fintype T] {trigger : T → Option (Trigger O)} {links : QueueElements T}
  {calls : List (PriorityCall T O)} {s : PriorityState T O}

theorem PriorityInv.run (h : Run PriorityStep (PriorityState.new trigger links) calls s) :
    ∃ l, PriorityInv s l := by
  refine Run.invariant (motive := fun s => ∃ l, PriorityInv s l) h
    ⟨[], PriorityInv.new trigger links⟩ ?_
  rintro s c s' ⟨l, hinv⟩ ⟨hproper, hok⟩
  obtain ⟨s'', hok', hinv'⟩ := hinv.call c hproper
  obtain rfl := Except.ok.inj (hok.symm.trans hok')
  exact hinv'

/-- `task->trigger->pPriority`. -/
def PriorityState.priority (s : PriorityState T O) (t : T) : Nat :=
  ((s.trigger t).map (·.pPriority)).getD Trigger.cInvalid_Priority

/-- After any proper calls the queue is a well-formed list of the tasks that were enqueued and not
removed since; the priorities do not increase along it, and tasks of one priority stand in the order
of their enqueue. Every further proper call returns. -/
theorem PriorityState.queue_sorted
    (h : Run PriorityStep (PriorityState.new trigger links) calls s) :
    (∃ l, s.queue.Rep s.links l ∧ l.Perm s.arrivals ∧
      (l.Pairwise fun t u => s.priority u ≤ s.priority t) ∧
      ∀ p, (l.filter fun t => s.priority t = p) = s.arrivals.filter fun t => s.priority t = p) ∧
    ∀ c : PriorityCall T O, c.Proper s → ∃ s', c.call s = .ok s' := by
  obtain ⟨l, hinv⟩ := PriorityInv.run h
  constructor
  · exact ⟨l, hinv.rep, hinv.sorts.perm hinv.rep.nodup hinv.nodup, hinv.sorts.sorted,
      fun p => hinv.sorts.filter_eq (OrderDual.toDual p)⟩
  · intro c hproper
    obtain ⟨s', hok, -⟩ := hinv.call c hproper
    exact ⟨s', hok⟩

end

/-- Two tasks without dependencies, the second with the higher priority. -/
def twoPriorities (t : Fin 2) : Option (Trigger Unit) :=
  some { pDestinationOSC := some (), pDeps := ⟨[none], DepArray.none_mem⟩, pPriority := t.val + 1 }

theorem PriorityState.queue_sorted_two :
    ∃ s, Run PriorityStep (PriorityState.new twoPriorities QueueElements.zeroed)
        [.enqueue 0, .enqueue 1, .dequeueHighestPriority fun t => t == 0] s ∧
      ∃ l, s.queue.Rep s.links l ∧ l.Perm [1] := by
  have hrun : ∃ s, Run PriorityStep (PriorityState.new twoPriorities QueueElements.zeroed)
      [.enqueue 0, .enqueue 1, .dequeueHighestPriority fun t => t == 0] s ∧ s.arrivals = [1] :=
    ⟨_, .snoc (.snoc (.snoc .nil ⟨⟨by simp [PriorityState.new], rfl⟩, rfl⟩)
      ⟨⟨by simp [PriorityState.new], rfl⟩, rfl⟩) ⟨trivial, rfl⟩, rfl⟩
  obtain ⟨s, hrun, harrivals⟩ := hrun
  obtain ⟨l, hrep, hperm, -⟩ := (PriorityState.queue_sorted hrun).1
  exact ⟨s, hrun, l, hrep, harrivals ▸ hperm⟩

/-! ## The second removal of the head -/

namespace EventPriorityQueue

variable {k : QueueElements T} {q : Queue T}

def dequeueHead (k : QueueElements T) (q : Queue T) : Option T × QueueElements T × Queue T :=
  let retEl := q.pHead
  match q.pHead with
  | none => (retEl, k, q)
  | some head =>
    let pHead := k.pNext head
    let k := k.setPrevious pHead none
    (retEl, k, { q with pHead := pHead, pSize := decrementSize q.pSize })

/-- Both return the first task. -/
theorem dequeueHead_fst {l : List T} (h : q.Rep k l) :
    ∃ k' q', q.dequeueFirst k = .ok ((dequeueHead k q).1, k', q') := by
  cases l with
  | nil =>
    refine ⟨k, q, ?_⟩
    have hhead : q.pHead = none := h.head
    rw [h.dequeueFirst_nil, dequeueHead, hhead]
  | cons t l =>
    obtain ⟨k', q', hok, -⟩ := h.dequeueFirst_cons
    refine ⟨k', q', ?_⟩
    have hhead : q.pHead = some t := h.head
    rw [hok, dequeueHead, hhead]

/-- Behind a first task the two differ: `dequeueFirst` clears its `pNext`, or the tail if it is the
only one. -/
theorem dequeueHead_ne_dequeueFirst {head : T} (hhead : q.pHead = some head) :
    .ok (dequeueHead k q) ≠ q.dequeueFirst k := by
  intro heq
  rw [Queue.dequeueFirst, dequeueHead, hhead] at heq
  dsimp only at heq
  by_cases htail : some head = q.pTail
  · rw [if_pos htail] at heq
    have hnone : q.pTail = none := congrArg (fun r => r.2.2.pTail) (Except.ok.inj heq)
    rw [hnone] at htail
    cases htail
  · rw [if_neg htail] at heq
    cases hnext : k.pNext head with
    | none => simp [hnext] at heq
    | some second =>
      rw [hnext] at heq
      have hlink := congrArg (fun r => r.2.1.pNext head) (Except.ok.inj heq)
      simp [hnext] at hlink

/-- In every state, well formed or not, the two do the same exactly on the empty queue. -/
theorem dequeueHead_eq_dequeueFirst_iff :
    .ok (dequeueHead k q) = q.dequeueFirst k ↔ q.pHead = none := by
  constructor
  · intro heq
    cases hhead : q.pHead with
    | none => rfl
    | some head => exact (dequeueHead_ne_dequeueFirst hhead heq).elim
  · intro hhead
    rw [Queue.dequeueFirst, dequeueHead, hhead]

/-- The only task is removed and the next one enqueued through the base class. After `dequeueHead`
it is linked behind the stale tail, and the queue has one element but no head. -/
theorem dequeueHead_loses_task :
    let afterFirst (remove : QueueElements (Fin 2) → Queue (Fin 2) →
        Exec (Option (Fin 2) × QueueElements (Fin 2) × Queue (Fin 2))) := do
      let (k, q) ← enqueue twoPriorities QueueElements.zeroed Queue.new 0
      let (_, k, q) ← remove k q
      let (_, q) ← q.enqueueFast k 1
      pure q
    afterFirst (fun k q => q.dequeueFirst k) =
        .ok { pHead := some 1, pTail := some 1, pSize := 1 } ∧
      afterFirst (fun k q => pure (dequeueHead k q)) =
        .ok { pHead := none, pTail := some 1, pSize := 1 } :=
  ⟨rfl, rfl⟩

end EventPriorityQueue

end CyPhOS
