import CyPhOS.EventHandling.Dispatcher

/-! # The order in which the tasks of a trigger are dispatched

`enqueued` and `dispatched` are the tasks that a run puts into the queues and takes out of them, in
order. A run dispatches the tasks of a trigger in order as long as no task is locked while one of
its trigger is in front of it: then what has been enqueued for a trigger is what has been dispatched
for it, followed by what waits in the queue (`Accounts`).

Under the priority strategy this is always so, since a scan goes on behind all tasks of a priority
once a lock was refused there, and the tasks of one trigger have one priority. Under the fifo
strategy the scan goes on with the next task, which may be of the same trigger; it depends on the
other CPUs whether the lock that was refused before is now granted (`ReleasesPassed`).
-/

namespace CyPhOS

open Transition

namespace Dispatcher

variable {n : Nat} {O E R T Q : Type}

/-- A task that goes into a queue or leaves it, with its trigger. -/
structure Entry (Q R T : Type) where
  queue : Q
  trigger : R
  eventtask : T
  deriving DecidableEq

section
variable [DecidableEq T] [Fintype T] (strategy : Strategy n O T Q) (program : Program O E R)

def Label.enqueues : Label n E R T Q → Option (Entry Q R T)
  | enqueueEvent t e r => some ⟨strategy.queueOf (program.trigger r) (program.pType e), r, t⟩
  | _ => none

omit [DecidableEq T] [Fintype T] in
def Label.dispatches : Label n E R T Q → Option (Entry Q R T)
  | locked _ q t r => some ⟨q, r, t⟩
  | _ => none

def enqueued (ls : List (Label n E R T Q)) : List (Entry Q R T) :=
  ls.filterMap fun l => l.enqueues strategy program

omit [DecidableEq T] [Fintype T] in
def dispatched (ls : List (Label n E R T Q)) : List (Entry Q R T) :=
  ls.filterMap fun l => l.dispatches

theorem enqueued_snoc (ls : List (Label n E R T Q)) (l : Label n E R T Q) :
    enqueued strategy program (ls ++ [l]) =
      enqueued strategy program ls ++ (l.enqueues strategy program).toList := by
  rw [enqueued, enqueued, List.filterMap_append]
  cases h : l.enqueues strategy program <;> simp [h]

omit [DecidableEq T] [Fintype T] in
theorem dispatched_snoc (ls : List (Label n E R T Q)) (l : Label n E R T Q) :
    dispatched (ls ++ [l]) = dispatched ls ++ l.dispatches.toList := by
  rw [dispatched, dispatched, List.filterMap_append]
  cases h : l.dispatches <;> simp [h]

end

section
variable [DecidableEq Q] [DecidableEq R]

/-- The tasks of a trigger in a queue. -/
def tasksOf (q : Q) (r : R) (es : List (Entry Q R T)) : List T :=
  (es.filter fun x => x.queue = q ∧ x.trigger = r).map Entry.eventtask

theorem tasksOf_append {q : Q} {r : R} {es es' : List (Entry Q R T)} :
    tasksOf q r (es ++ es') = tasksOf q r es ++ tasksOf q r es' := by
  simp [tasksOf]

theorem tasksOf_singleton {q : Q} {r : R} {x : Entry Q R T} :
    tasksOf q r [x] = if x.queue = q ∧ x.trigger = r then [x.eventtask] else [] := by
  by_cases h : x.queue = q ∧ x.trigger = r
  · simp [tasksOf, h]
  · rw [if_neg h, tasksOf, List.filter_cons_of_neg (by simpa using h)]
    rfl

end

/-- The CPU that a step moves. -/
def Label.cpu : Label n E R T Q → Option (Fin n)
  | enqueueEvent _ _ _ => none
  | releaseStack cpu | getEvent cpu | lockQueue cpu | refused cpu | locked cpu _ _ _
  | unlockQueue cpu | noEvent cpu | getFreeStack cpu | noStack cpu | requeue cpu | activate cpu
  | eventTaskFinished cpu => some cpu

/-- No task is locked while one of its trigger is in front of it. -/
def InOrder [DecidableEq T] (m : State n E R T Q) : Label n E R T Q → Prop
  | .locked _ q t r => ∀ xs ys, (m.queues q).Rep m.links (xs ++ t :: ys) →
      ∀ u ∈ xs, (m.eventTask u).trigger ≠ some r
  | _ => True

section
variable [DecidableEq O] [DecidableEq T] [Fintype T] [DecidableEq Q] [DecidableEq R]
  {strategy : Strategy n O T Q} {program : Program O E R} {m m' : State n E R T Q}
  {lists lists' : Q → List T} {l : Label n E R T Q} {ls : List (Label n E R T Q)}

omit [DecidableEq R] in
/-- The tasks in the queues keep their triggers. -/
theorem Good.trigger_eq (h : Good strategy program m lists) (hstep : Step strategy program m l m')
    {q : Q} {u : T} (hu : u ∈ lists q) : (m'.eventTask u).trigger = (m.eventTask u).trigger := by
  cases hstep with
  | enqueueEvent hpool hfree hcall =>
    obtain ⟨-, -, -, -, -, hsame, -⟩ := h.enqueueEvent hpool hfree hcall
    rw [hsame u]
    rintro rfl
    obtain ⟨r, -, hr, -⟩ := h.lined.queued q u hu
    rw [hpool] at hr
    cases hr
  | releaseStack hcontrol =>
    unfold State.releaseStack
    split <;> rfl
  | @getFreeStack cpu t sp stackPool hcontrol hcall =>
    rcases eq_or_ne u t with rfl | hne
    · simp [State.goto, State.setTask]
    · simp [State.goto, State.setTask, hne]
  | requeue hcontrol => exact (h.agrees hcontrol).elim
  | @activate cpu task hcontrol =>
    obtain ⟨c, pStackPointers, heq, -⟩ := m.activate_eq cpu task
    rw [heq]
    rfl
  | @eventTaskFinished cpu t hcontrol hactive =>
    have hne : u ≠ t := by
      rintro rfl
      exact (h.cycled.active cpu u hactive).2 q hu
    simp [State.goto, State.eventTaskFinished, State.setTask, hne]
  | _ => rfl

/-- What was enqueued for a trigger was dispatched or waits, in this order. -/
def Accounts (strategy : Strategy n O T Q) (program : Program O E R)
    (ls : List (Label n E R T Q)) (m : State n E R T Q) (lists : Q → List T) : Prop :=
  ∀ q r, tasksOf q r (enqueued strategy program ls) = tasksOf q r (dispatched ls) ++
    (lists q).filter fun t => (m.eventTask t).trigger = some r

omit [DecidableEq O] in
theorem Accounts.initial :
    Accounts strategy program [] State.initial fun _ => [] := fun _ _ => rfl

theorem Accounts.snoc (h : Accounts strategy program ls m lists)
    (hgood : Good strategy program m lists) (hstep : Step strategy program m l m')
    (hmoved : Moved strategy program m lists lists' l) (horder : InOrder m l) :
    Accounts strategy program (ls ++ [l]) m' lists' := by
  have hkeep : ∀ {q r xs}, xs ⊆ lists q → (xs.filter fun t => (m'.eventTask t).trigger = some r) =
      xs.filter fun t => (m.eventTask t).trigger = some r := by
    intro q r xs hsub
    refine List.filter_congr fun t ht => ?_
    rw [hgood.trigger_eq hstep (hsub ht)]
  intro q r
  rw [enqueued_snoc, dispatched_snoc, tasksOf_append, tasksOf_append, h q r, List.append_assoc,
    List.append_assoc, List.append_cancel_left_eq]
  cases l with
  | enqueueEvent t e r₀ =>
    obtain ⟨xs, ys, hsplit, hys, rfl⟩ := hmoved
    have hr : (m'.eventTask t).trigger = some r₀ := by
      cases hstep with
      | enqueueEvent hpool hfree hcall =>
        obtain ⟨-, -, -, -, hr, -⟩ := hgood.enqueueEvent hpool hfree hcall
        exact hr
    set q₀ := strategy.queueOf (program.trigger r₀) (program.pType e)
    change _ ++ tasksOf q r [⟨q₀, r₀, t⟩] = List.filter _ _
    rw [tasksOf_singleton]
    rcases eq_or_ne q q₀ with rfl | hq
    · have hxs : xs ⊆ lists q₀ := by simp [hsplit]
      have hys' : ys ⊆ lists q₀ := by simp [hsplit]
      rw [Function.update_self, List.filter_append, List.filter_cons, hkeep hxs, hkeep hys',
        hsplit, List.filter_append]
      rcases eq_or_ne r₀ r with rfl | hne
      · have hnone : (ys.filter fun t => (m.eventTask t).trigger = some r₀) = [] :=
          List.filter_eq_nil_iff.mpr fun u hu => by simpa using hys u hu
        simp [hr, hnone]
      · simp [hr, hne]
    · rw [Function.update_of_ne hq, hkeep (List.Subset.refl _), if_neg fun e => hq e.1.symm,
        List.append_nil]
  | locked cpu q₀ t r₀ =>
    obtain ⟨xs, ys, hsplit, rfl, hr⟩ := hmoved
    have hrep := hgood.lined.family.rep q₀
    rw [hsplit] at hrep
    have hfront := horder xs ys hrep
    change List.filter _ _ ++ [] = tasksOf q r [⟨q₀, r₀, t⟩] ++ _
    rw [tasksOf_singleton, List.append_nil]
    rcases eq_or_ne q q₀ with rfl | hq
    · have hsub : xs ++ ys ⊆ lists q := by
        rw [hsplit]
        exact fun u hu => List.perm_middle.mem_iff.mpr (.tail t hu)
      rw [Function.update_self, hkeep hsub, hsplit, List.filter_append, List.filter_append,
        List.filter_cons]
      rcases eq_or_ne r₀ r with rfl | hne
      · have hnone : (xs.filter fun t => (m.eventTask t).trigger = some r₀) = [] :=
          List.filter_eq_nil_iff.mpr fun u hu => by simpa using hfront u hu
        simp [hr, hnone]
      · simp [hr, hne]
    · rw [Function.update_of_ne hq, hkeep (List.Subset.refl _), if_neg fun e => hq e.1.symm,
        List.nil_append]
  | _ =>
    cases hmoved
    exact (List.append_nil _).trans (hkeep (List.Subset.refl _)).symm

/-- A run that dispatches in order dispatches, of each trigger, what was enqueued first. -/
theorem Accounts.run
    (hrun : Run (fun m l m' => Step strategy program m l m' ∧ InOrder m l) State.initial ls m) :
    ∃ lists, Good strategy program m lists ∧ Accounts strategy program ls m lists := by
  induction hrun with
  | nil => exact ⟨_, Good.initial, Accounts.initial⟩
  | snoc _ hstep ih =>
    obtain ⟨lists, hgood, haccounts⟩ := ih
    obtain ⟨lists', hgood', hmoved⟩ := hgood.step hstep.1
    exact ⟨lists', hgood', haccounts.snoc hgood hstep.1 hmoved hstep.2⟩

theorem dispatched_prefix
    (hrun : Run (fun m l m' => Step strategy program m l m' ∧ InOrder m l) State.initial ls m)
    (q : Q) (r : R) :
    tasksOf q r (dispatched ls) <+: tasksOf q r (enqueued strategy program ls) := by
  obtain ⟨lists, -, haccounts⟩ := Accounts.run hrun
  rw [haccounts q r]
  exact List.prefix_append _ _

/-! ## Scans -/

omit [DecidableEq O] [DecidableEq T] [Fintype T] [DecidableEq Q] [DecidableEq R] in
theorem split_unique {xs ys xs' ys' : List T} {t : T} (hnodup : (xs ++ t :: ys).Nodup)
    (h : xs ++ t :: ys = xs' ++ t :: ys') : xs = xs' ∧ ys = ys' := by
  have hout : t ∉ xs ++ ys :=
    (List.nodup_cons.mp ((List.perm_middle.nodup_iff).mp hnodup)).1
  simp only [List.mem_append, not_or] at hout
  obtain ⟨hxs, -, hys⟩ := (List.append_cons_inj_of_notMem hout.1 hout.2).mp h
  exact ⟨hxs, hys⟩

omit [DecidableEq R] in
/-- The list of a queue does not change while it is scanned, but by the scan. -/
theorem Good.scanned_eq (h : Good strategy program m lists) (hstep : Step strategy program m l m')
    (hmoved : Moved strategy program m lists lists' l) {cpu : Fin n} {q : Q} {o : Option T}
    {rest : List Q} (hscan : m.control cpu = .scanning q o rest)
    (hcpu : ∀ q t r, l ≠ .locked cpu q t r) : lists' q = lists q := by
  cases hstep with
  | enqueueEvent hpool hfree hcall =>
    obtain ⟨xs, ys, -, -, rfl⟩ := hmoved
    refine Function.update_of_ne (fun e => hfree cpu ?_) _ _
    rw [hscan, ← e]
    rfl
  | @locked cpu' q' t rest' active r hcontrol hcall htrigger =>
    obtain ⟨xs, ys, -, rfl, -⟩ := hmoved
    have hne : q ≠ q' := by
      rintro rfl
      cases h.lined.locks cpu cpu' q (by rw [hscan]; rfl) (by rw [hcontrol]; rfl)
      exact hcpu q t r rfl
    rw [Function.update_of_ne hne]
  | _ =>
    cases hmoved
    rfl

omit [DecidableEq R] in
/-- An active task stays active, with its trigger, until it finishes. -/
theorem Good.active_keep (h : Good strategy program m lists)
    (hstep : Step strategy program m l m') {cpu : Fin n} {a : T}
    (ha : m.pActiveEventTask cpu = some a) (hl : l ≠ .eventTaskFinished cpu) :
    m'.pActiveEventTask cpu = some a ∧ (m'.eventTask a).trigger = (m.eventTask a).trigger := by
  cases hstep with
  | @enqueueEvent _ t e r hpool hfree hcall =>
    obtain ⟨-, -, -, -, -, hsame, -, -, hactive⟩ := h.enqueueEvent hpool hfree hcall
    have hne : a ≠ t := by
      rintro rfl
      exact (h.cycled.active cpu a ha).1 hpool
    rw [hactive, hsame a hne]
    exact ⟨ha, rfl⟩
  | releaseStack hcontrol =>
    unfold State.releaseStack
    split <;> exact ⟨ha, rfl⟩
  | @locked cpu' q t rest active r hcontrol hcall htrigger =>
    have hnone : m.pActiveEventTask cpu' = none := h.agrees hcontrol
    have hne : cpu ≠ cpu' := by
      rintro rfl
      rw [hnone] at ha
      cases ha
    obtain ⟨-, hcases⟩ := tryTaskLock_cases hcall
    obtain rfl : active = Function.update m.pActiveEventTask cpu' (some t) := by simpa using hcases
    exact ⟨(Function.update_of_ne hne _ _).trans ha, rfl⟩
  | @getFreeStack cpu' t sp stackPool hcontrol hcall =>
    refine ⟨ha, ?_⟩
    rcases eq_or_ne a t with rfl | hne
    · simp [State.goto, State.setTask]
    · simp [State.goto, State.setTask, hne]
  | requeue hcontrol => exact (h.agrees hcontrol).elim
  | @activate cpu' task hcontrol =>
    obtain ⟨c, pStackPointers, heq, -⟩ := m.activate_eq cpu' task
    rw [heq]
    exact ⟨ha, rfl⟩
  | @eventTaskFinished cpu' t hcontrol hactive =>
    have hne : cpu ≠ cpu' := fun e => hl (by rw [e])
    have hat : a ≠ t := h.ne_of_active hactive ha hne
    exact ⟨by simpa [State.goto, State.eventTaskFinished, unlockTask, State.setTask, hne] using ha,
      by simp [State.goto, State.eventTaskFinished, State.setTask, hat]⟩
  | _ => exact ⟨ha, rfl⟩

omit [DecidableEq R] in
/-- A step moves one CPU at most. -/
theorem Good.control_of_ne (h : Good strategy program m lists)
    (hstep : Step strategy program m l m') {cpu : Fin n} (hcpu : l.cpu ≠ some cpu) :
    m'.control cpu = m.control cpu := by
  cases hstep with
  | enqueueEvent hpool hfree hcall =>
    obtain ⟨-, -, -, -, -, -, -, hcontrol, -⟩ := h.enqueueEvent hpool hfree hcall
    rw [hcontrol]
  | releaseStack hcontrol =>
    rw [State.goto_control_of_ne fun e => hcpu (congrArg some e.symm)]
    unfold State.releaseStack
    split <;> rfl
  | requeue hcontrol => exact (h.agrees hcontrol).elim
  | @activate cpu' task hcontrol =>
    have hne : cpu ≠ cpu' := fun e => hcpu (congrArg some e.symm)
    obtain ⟨c, pStackPointers, heq, -⟩ := m.activate_eq cpu' task
    rw [heq]
    exact State.goto_control_of_ne hne
  | _ => exact State.goto_control_of_ne fun e => hcpu (congrArg some e.symm)

omit [DecidableEq R] in
/-- A CPU that scans a queue has not moved, has just begun, or was refused a lock. -/
theorem Good.scan_cases (h : Good strategy program m lists)
    (hstep : Step strategy program m l m') (hmoved : Moved strategy program m lists lists' l)
    {cpu : Fin n} {q : Q} {o : Option T} {rest : List Q}
    (hscan : m'.control cpu = .scanning q o rest) :
    (l.cpu ≠ some cpu ∧ m.control cpu = .scanning q o rest ∧ lists' q = lists q) ∨
      (lists' = lists ∧ o = (lists q).head?) ∨
      ∃ t xs ys, lists' = lists ∧ m' = m.goto cpu (.scanning q o rest) ∧
        m.control cpu = .scanning q (some t) rest ∧ lists q = xs ++ t :: ys ∧
        tryTaskLock (m.trigger program) m.pActiveEventTask cpu t =
          .ok (false, m.pActiveEventTask) ∧
        strategy.next (m.trigger program) m.links t = .ok o := by
  by_cases hcpu : l.cpu = some cpu
  · right
    cases hstep with
    | enqueueEvent => cases hcpu
    | @lockQueue cpu' q' rest' hcontrol hfree =>
      cases hcpu
      rw [State.goto_control_self] at hscan
      cases hscan
      exact .inl ⟨hmoved, (h.lined.family.rep q).head⟩
    | @refused cpu' q' t rest' o' hcontrol hcall hnext =>
      cases hcpu
      rw [State.goto_control_self] at hscan
      cases hscan
      obtain ⟨xs, zs, hsplit, hhead⟩ := h.lined.scan cpu q _ rest hcontrol
      obtain ⟨ys, rfl⟩ := List.head?_eq_some_iff.mp hhead.symm
      exact .inr ⟨t, xs, ys, hmoved, rfl, hcontrol, hsplit, hcall, hnext⟩
    | requeue hcontrol => exact (h.agrees hcontrol).elim
    | @activate cpu' task hcontrol =>
      cases hcpu
      rcases m.activate_control cpu task with e | e | e <;> cases e.symm.trans hscan
    | _ =>
      cases hcpu
      rw [State.goto_control_self] at hscan
      cases hscan
  · have hsame := h.control_of_ne hstep hcpu
    rw [hsame] at hscan
    refine .inl ⟨hcpu, hscan, h.scanned_eq hstep hmoved hscan fun q t r e => hcpu ?_⟩
    rw [e]
    rfl

omit [DecidableEq R] in
theorem Good.trigger_congr (h : Good strategy program m lists)
    (hstep : Step strategy program m l m') {q : Q} {u : T} (hu : u ∈ lists q) :
    m'.trigger program u = m.trigger program u := by
  rw [State.trigger, State.trigger, h.trigger_eq hstep hu]

omit [DecidableEq O] [DecidableEq Q] [DecidableEq R] in
theorem enqueued_queue {x : Entry Q R T} (hx : x ∈ enqueued strategy program ls) :
    ∃ e, x.queue = strategy.queueOf (program.trigger x.trigger) (program.pType e) := by
  obtain ⟨l, -, hl⟩ := List.mem_filterMap.mp hx
  cases l with
  | enqueueEvent t e r =>
    cases hl
    exact ⟨e, rfl⟩
  | _ => cases hl

omit [DecidableEq R] in
/-- Every task is dispatched from a queue of its trigger. -/
theorem dispatched_queue (hrun : Run (Step strategy program) State.initial ls m)
    {x : Entry Q R T} (hx : x ∈ dispatched ls) :
    ∃ e, x.queue = strategy.queueOf (program.trigger x.trigger) (program.pType e) := by
  induction hrun with
  | nil => cases hx
  | snoc hrun hstep ih =>
    rw [dispatched_snoc, List.mem_append] at hx
    rcases hx with hx | hx
    · exact ih hx
    · obtain ⟨lists, hgood⟩ := Good.run hrun
      obtain ⟨lists', -, hmoved⟩ := hgood.step hstep
      cases hstep with
      | @locked cpu q t rest active r hcontrol hcall htrigger =>
        obtain ⟨xs, ys, hsplit, -⟩ := hmoved
        obtain rfl : x = ⟨q, r, t⟩ := by simpa [Label.dispatches] using hx
        obtain ⟨r', e, hr', -, hq⟩ := hgood.lined.queued q t (by simp [hsplit])
        cases htrigger.symm.trans hr'
        exact ⟨e, hq.symm⟩
      | _ => simp [Label.dispatches] at hx

end

/-! ## The priority strategy -/

section
variable [DecidableEq O] [DecidableEq T] [Fintype T] [DecidableEq R]
  {program : Program O E R} {m m' : State n E R T (Fin (n + 1))}
  {lists lists' : Fin (n + 1) → List T} {l : Label n E R T (Fin (n + 1))}
  {ls : List (Label n E R T (Fin (n + 1)))}

/-- In front of the task that a scan tries next there is none of its priority. -/
def Levelled (program : Program O E R) (m : State n E R T (Fin (n + 1)))
    (lists : Fin (n + 1) → List T) : Prop :=
  ∀ cpu q t rest, m.control cpu = .scanning q (some t) rest → ∀ xs ys, lists q = xs ++ t :: ys →
    ∀ u ∈ xs, EventPriorityQueue.level (m.trigger program) u ≠
      EventPriorityQueue.level (m.trigger program) t

omit [DecidableEq R] in
theorem Levelled.step (h : Levelled program m lists)
    (hgood : Good multiQueuePriorityStrategy program m lists)
    (hstep : Step multiQueuePriorityStrategy program m l m')
    (hmoved : Moved multiQueuePriorityStrategy program m lists lists' l) :
    Levelled program m' lists' := by
  intro cpu q t rest hscan xs ys hsplit u hu
  have hnodup := (hgood.lined.family.rep q).nodup
  rcases hgood.scan_cases hstep hmoved hscan with ⟨-, hold, hsame⟩ | ⟨rfl, hhead⟩ |
    ⟨t₀, xs₀, ys₀, rfl, rfl, -, hsplit₀, -, hnext⟩
  · rw [hsame] at hsplit
    have hmem : ∀ a ∈ xs ++ t :: ys, a ∈ lists q := fun a ha => hsplit ▸ ha
    rw [EventPriorityQueue.level_congr (hgood.trigger_congr hstep (hmem u (by simp [hu]))),
      EventPriorityQueue.level_congr (hgood.trigger_congr hstep (hmem t (by simp)))]
    exact h cpu q t rest hold xs ys hsplit u hu
  · -- nothing is in front of the head
    cases xs with
    | nil => cases hu
    | cons a xs =>
      rw [hsplit, List.cons_append, List.head?_cons, Option.some_inj] at hhead
      rw [hsplit, hhead, List.cons_append, List.nodup_cons] at hnodup
      exact (hnodup.1 (by simp)).elim
  · -- the scan has gone over all tasks of the priority of the refused one
    have hrep := hgood.lined.family.rep q
    have htriggered : ∀ a ∈ lists' q, (m.trigger program a).isSome := fun a ha =>
      hgood.lined.triggered ha
    have hkept := hgood.lined.kept q
    rw [hsplit₀] at hrep htriggered hkept
    have hhead := (EventPriorityQueue.nextLevel_eq hrep htriggered).symm.trans hnext
    obtain ⟨ws, hws⟩ := List.head?_eq_some_iff.mp (Except.ok.inj hhead)
    set zs := ys₀.takeWhile fun a => decide (EventPriorityQueue.level (m.trigger program) a =
      EventPriorityQueue.level (m.trigger program) t₀) with hzs
    have hys₀ : ys₀ = zs ++ t :: ws := by
      rw [hzs, ← hws, List.takeWhile_append_dropWhile]
    have hxs : xs = xs₀ ++ t₀ :: zs := by
      have hsame : xs ++ t :: ys = (xs₀ ++ t₀ :: zs) ++ t :: ws := by
        rw [← hsplit, hsplit₀, hys₀, List.append_assoc, List.cons_append]
      exact (split_unique (hsplit ▸ hnodup) hsame).1
    obtain ⟨-, hsorted, hfront⟩ := List.pairwise_append.mp hkept
    have hlt : EventPriorityQueue.level (m.trigger program) t₀ <
        EventPriorityQueue.level (m.trigger program) t :=
      StableOrder.lt_of_mem_dropWhile_eq hsorted (by simp [hws])
    have hle : EventPriorityQueue.level (m.trigger program) u ≤
        EventPriorityQueue.level (m.trigger program) t₀ := by
      rw [hxs] at hu
      rcases List.mem_append.mp hu with hu | hu
      · exact hfront u hu t₀ (by simp)
      · rcases List.mem_cons.mp hu with rfl | hu
        · exact le_rfl
        · have := List.mem_takeWhile_imp hu
          exact (of_decide_eq_true this).le
    exact (hle.trans_lt hlt).ne

omit [DecidableEq R] in
/-- So a task is never locked in front of which there is one of its trigger. -/
theorem Levelled.inOrder (h : Levelled program m lists)
    (hgood : Good multiQueuePriorityStrategy program m lists)
    (hstep : Step multiQueuePriorityStrategy program m l m') : InOrder m l := by
  cases hstep with
  | @locked cpu q t rest active r hcontrol hcall htrigger =>
    intro xs ys hrep u hu hur
    have hsplit := (hgood.lined.family.rep q).unique hrep
    refine h cpu q t rest hcontrol xs ys hsplit u hu ?_
    rw [EventPriorityQueue.level, EventPriorityQueue.level, State.trigger, State.trigger, hur,
      htrigger]
  | _ => trivial

omit [DecidableEq R] in
theorem Levelled.run (hrun : Run (Step multiQueuePriorityStrategy program) State.initial ls m) :
    Run (fun m l m' => Step multiQueuePriorityStrategy program m l m' ∧ InOrder m l)
      State.initial ls m ∧
      ∃ lists, Good multiQueuePriorityStrategy program m lists ∧ Levelled program m lists := by
  induction hrun with
  | nil => exact ⟨.nil, _, Good.initial, fun _ _ _ _ hscan => by cases hscan⟩
  | snoc _ hstep ih =>
    obtain ⟨hrun, lists, hgood, hlevelled⟩ := ih
    obtain ⟨lists', hgood', hmoved⟩ := hgood.step hstep
    exact ⟨hrun.snoc ⟨hstep, hlevelled.inOrder hgood hstep⟩, lists', hgood',
      hlevelled.step hgood hstep hmoved⟩

end

/-- The tasks of a trigger. -/
def tasksOfTrigger [DecidableEq R] (r : R) (es : List (Entry Q R T)) : List T :=
  (es.filter fun x => x.trigger = r).map Entry.eventtask

theorem tasksOfTrigger_eq [DecidableEq Q] [DecidableEq R] {q : Q} {r : R}
    {es : List (Entry Q R T)} (h : ∀ x ∈ es, x.trigger = r → x.queue = q) :
    tasksOfTrigger r es = tasksOf q r es := by
  rw [tasksOfTrigger, tasksOf]
  congr 1
  refine List.filter_congr fun x hx => ?_
  by_cases hr : x.trigger = r
  · simp [hr, h x hx hr]
  · simp [hr]

/-- Under the priority strategy the tasks of a trigger are dispatched in the order in which they
were enqueued, in every run of any number of CPUs. -/
theorem priority_order [DecidableEq O] [DecidableEq T] [Fintype T] [DecidableEq R]
    {program : Program O E R} {m : State n E R T (Fin (n + 1))}
    {ls : List (Label n E R T (Fin (n + 1)))}
    (hrun : Run (Step multiQueuePriorityStrategy program) State.initial ls m) (r : R) :
    tasksOfTrigger r (dispatched ls) <+:
      tasksOfTrigger r (enqueued multiQueuePriorityStrategy program ls) := by
  obtain ⟨hordered, -⟩ := Levelled.run hrun
  have hprefix := dispatched_prefix hordered (Tasks.readyQueue (program.trigger r).pAffinity) r
  rwa [tasksOfTrigger_eq, tasksOfTrigger_eq]
  · intro x hx hr
    obtain ⟨e, he⟩ := enqueued_queue hx
    rw [he, hr]
    rfl
  · intro x hx hr
    obtain ⟨e, he⟩ := dispatched_queue hrun hx
    rw [he, hr]
    rfl

/-- Two tasks of the trigger are enqueued, and one of two CPUs locks one of them. -/
theorem priority_order_oneTrigger : ∃ m : State 2 Bool Unit (Fin 2) (Fin 3),
    Run (Step multiQueuePriorityStrategy oneTrigger) State.initial
      [.enqueueEvent 0 true (), .enqueueEvent 1 true (), .releaseStack 0, .getEvent 0,
        .lockQueue 0, .unlockQueue 0, .lockQueue 0, .locked 0 2 0 ()] m ∧
      tasksOfTrigger () (dispatched [.enqueueEvent 0 true (), .enqueueEvent 1 true (),
        .releaseStack 0, .getEvent 0, .lockQueue 0, .unlockQueue 0, .lockQueue 0,
        (.locked 0 2 0 () : Label 2 Bool Unit (Fin 2) (Fin 3))]) <+:
      tasksOfTrigger () (enqueued multiQueuePriorityStrategy oneTrigger [.enqueueEvent 0 true (),
        .enqueueEvent 1 true (), .releaseStack 0, .getEvent 0, .lockQueue 0, .unlockQueue 0,
        .lockQueue 0, (.locked 0 2 0 () : Label 2 Bool Unit (Fin 2) (Fin 3))]) := by
  have hafter : (([.enqueueEvent 0 true (), .enqueueEvent 1 true (), .releaseStack 0, .getEvent 0,
      .lockQueue 0, .unlockQueue 0, .lockQueue 0, .locked 0 2 0 ()] : List (Label 2 Bool Unit
        (Fin 2) (Fin 3))).foldlM (State.after multiQueuePriorityStrategy oneTrigger)
          State.initial).isSome := by decide +kernel
  obtain ⟨m, hm⟩ := Option.isSome_iff_exists.mp hafter
  exact ⟨m, run_of_afterAll hm, priority_order (run_of_afterAll hm) ()⟩

/-! ## The fifo strategy -/

section
variable [DecidableEq O] [DecidableEq T] [Fintype T] [DecidableEq R]
  {program : Program O E R} {m m' : State n E R T (FifoQueue n)}
  {lists lists' : FifoQueue n → List T} {l : Label n E R T (FifoQueue n)}
  {ls : List (Label n E R T (FifoQueue n))}

/-- The end of the task on the CPU sets the OSCs of a task free that a scan has passed, while one of
the same trigger is still in front of the scan. -/
def ReleasesPassed (program : Program O E R) (m : State n E R T (FifoQueue n))
    (cpu : Fin n) : Prop :=
  ∃ cpu' q o rest xs ys, m.control cpu' = .scanning q o rest ∧
    (m.queues q).Rep m.links (xs ++ ys) ∧ o = ys.head? ∧
    ∃ u ∈ xs, ∃ v ∈ ys, (m.eventTask u).trigger = (m.eventTask v).trigger ∧
      ¬ OSCsInUse (m.trigger program) (Function.update m.pActiveEventTask cpu none) u

/-- The steps under which the order is kept. -/
def Keeps (program : Program O E R) (m : State n E R T (FifoQueue n)) :
    Label n E R T (FifoQueue n) → Prop
  | .eventTaskFinished cpu => ¬ ReleasesPassed program m cpu
  | _ => True

/-- A task that a scan has passed is still locked out, if one of its trigger is in front of the
scan. -/
def PassedInUse (program : Program O E R) (m : State n E R T (FifoQueue n))
    (lists : FifoQueue n → List T) : Prop :=
  ∀ cpu q o rest, m.control cpu = .scanning q o rest → ∀ xs ys, lists q = xs ++ ys →
    o = ys.head? → ∀ u ∈ xs, ∀ v ∈ ys, (m.eventTask u).trigger = (m.eventTask v).trigger →
      OSCsInUse (m.trigger program) m.pActiveEventTask u

omit [DecidableEq R] in
/-- What keeps a queued task locked out, if it stays active. -/
theorem OSCsInUse.step {u : T} {q : FifoQueue n} (h : Good multiFifoStrategy program m lists)
    (hstep : Step multiFifoStrategy program m l m') (hu : u ∈ lists q)
    (huse : ∃ cpu a, m.pActiveEventTask cpu = some a ∧ l ≠ .eventTaskFinished cpu ∧
      ¬ (taskOSCs (m.trigger program) u).Disjoint (taskOSCs (m.trigger program) a)) :
    OSCsInUse (m'.trigger program) m'.pActiveEventTask u := by
  obtain ⟨cpu, a, ha, hl, hdisj⟩ := huse
  obtain ⟨ha', htrigger⟩ := h.active_keep hstep ha hl
  refine ⟨cpu, a, ha', ?_⟩
  have hcongr : m'.trigger program a = m.trigger program a := by
    rw [State.trigger, State.trigger, htrigger]
  rw [taskOSCs, taskOSCs, h.trigger_congr hstep hu, hcongr]
  exact hdisj

omit [DecidableEq R] in
theorem PassedInUse.step (h : PassedInUse program m lists)
    (hgood : Good multiFifoStrategy program m lists)
    (hstep : Step multiFifoStrategy program m l m')
    (hmoved : Moved multiFifoStrategy program m lists lists' l) (hkeeps : Keeps program m l) :
    PassedInUse program m' lists' := by
  intro cpu q o rest hscan xs ys hsplit ho u hu v hv huv
  have hnodup := (hgood.lined.family.rep q).nodup
  rcases hgood.scan_cases hstep hmoved hscan with ⟨-, hold, hsame⟩ | ⟨rfl, hhead⟩ |
    ⟨t₀, xs₀, ys₀, rfl, rfl, hold, hsplit₀, hcall, hnext⟩
  · rw [hsame] at hsplit
    have hu' : u ∈ lists q := by simp [hsplit, hu]
    have hv' : v ∈ lists q := by simp [hsplit, hv]
    rw [hgood.trigger_eq hstep hu', hgood.trigger_eq hstep hv'] at huv
    refine OSCsInUse.step hgood hstep hu' ?_
    by_cases hfinish : ∃ cpu', l = .eventTaskFinished cpu'
    · obtain ⟨cpu', rfl⟩ := hfinish
      have hrep := hgood.lined.family.rep q
      rw [hsplit] at hrep
      by_contra hnot
      refine hkeeps ⟨cpu, q, o, rest, xs, ys, hold, hrep, ho, u, hu, v, hv, huv, ?_⟩
      rintro ⟨c, a, ha, hdisj⟩
      rcases eq_or_ne c cpu' with rfl | hne
      · simp at ha
      · rw [Function.update_of_ne hne] at ha
        exact hnot ⟨c, a, ha, fun e => hne (Label.eventTaskFinished.inj e).symm, hdisj⟩
    · obtain ⟨c, a, ha, hdisj⟩ := h cpu q o rest hold xs ys hsplit ho u hu v hv huv
      exact ⟨c, a, ha, fun e => hfinish ⟨c, e⟩, hdisj⟩
  · -- nothing is in front of the head
    cases xs with
    | nil => cases hu
    | cons a xs =>
      rw [hsplit, List.cons_append, List.head?_cons, ho] at hhead
      rw [hsplit, List.cons_append, List.nodup_cons] at hnodup
      exact (hnodup.1 (List.mem_append_right _ (List.mem_of_mem_head? hhead))).elim
  · -- the scan has passed one more task, the one that was refused
    have hrep := hgood.lined.family.rep q
    rw [hsplit₀] at hrep
    have hnext' : o = ys₀.head? := Except.ok.inj (hnext.symm.trans (EventQueue.next_eq hrep))
    obtain ⟨w, ws, rfl⟩ := List.exists_cons_of_ne_nil (List.ne_nil_of_mem hv)
    obtain ⟨ws₀, rfl⟩ := List.head?_eq_some_iff.mp (hnext'.symm.trans ho)
    have hsame : xs ++ w :: ws = (xs₀ ++ [t₀]) ++ w :: ws₀ := by
      rw [← hsplit, hsplit₀]
      simp
    obtain ⟨rfl, rfl⟩ := split_unique (hsplit ▸ hnodup) hsame
    rcases List.mem_append.mp hu with hu | hu
    · exact h cpu q _ rest hold xs₀ (t₀ :: w :: ws) hsplit₀ rfl u hu v (.tail t₀ hv) huv
    · obtain rfl : u = t₀ := by simpa using hu
      exact (tryTaskLock_refused_iff hgood.triggered_active (hgood.agrees hold) hcall).mp rfl

omit [DecidableEq R] in
/-- A task that is locked is not locked out, so no task of its trigger is in front of it. -/
theorem PassedInUse.inOrder (h : PassedInUse program m lists)
    (hgood : Good multiFifoStrategy program m lists)
    (hstep : Step multiFifoStrategy program m l m') : InOrder m l := by
  cases hstep with
  | @locked cpu q t rest active r hcontrol hcall htrigger =>
    intro xs ys hrep u hu hur
    have hsplit := (hgood.lined.family.rep q).unique hrep
    obtain ⟨c, a, ha, hdisj⟩ := h cpu q _ rest hcontrol xs (t :: ys) hsplit rfl u hu t (by simp)
      (hur.trans htrigger.symm)
    have hsame : taskOSCs (m.trigger program) u = taskOSCs (m.trigger program) t := by
      rw [taskOSCs, taskOSCs, State.trigger, State.trigger, hur, htrigger]
    rw [hsame] at hdisj
    have hrefused := (tryTaskLock_refused_iff hgood.triggered_active (hgood.agrees hcontrol)
      hcall).mpr ⟨c, a, ha, hdisj⟩
    cases hrefused
  | _ => trivial

omit [DecidableEq R] in
theorem PassedInUse.run
    (hrun : Run (fun m l m' => Step multiFifoStrategy program m l m' ∧ Keeps program m l)
      State.initial ls m) :
    Run (fun m l m' => Step multiFifoStrategy program m l m' ∧ InOrder m l) State.initial ls m ∧
      ∃ lists, Good multiFifoStrategy program m lists ∧ PassedInUse program m lists := by
  induction hrun with
  | nil => exact ⟨.nil, _, Good.initial, fun _ _ _ _ hscan => by cases hscan⟩
  | snoc _ hstep ih =>
    obtain ⟨hrun, lists, hgood, hpassed⟩ := ih
    obtain ⟨lists', hgood', hmoved⟩ := hgood.step hstep.1
    exact ⟨hrun.snoc ⟨hstep.1, hpassed.inOrder hgood hstep.1⟩, lists', hgood',
      hpassed.step hgood hstep.1 hmoved hstep.2⟩

/-- Under the fifo strategy the tasks of a trigger in one queue are dispatched in the order in which
they were enqueued, in every run in which no task ends that locks out a task which a scan has passed
while one of its trigger is in front of the scan. -/
theorem fifo_order
    (hrun : Run (fun m l m' => Step multiFifoStrategy program m l m' ∧ Keeps program m l)
      State.initial ls m) (q : FifoQueue n) (r : R) :
    tasksOf q r (dispatched ls) <+: tasksOf q r (enqueued multiFifoStrategy program ls) :=
  dispatched_prefix (PassedInUse.run hrun).1 q r

end

/-- Two triggers of one component, each for a CPU of its own, and an interrupt. -/
def triggerPerCPU : Program Unit Bool Bool where
  trigger r := { pDestinationOSC := some (), pDeps := ⟨[none], DepArray.none_mem⟩, pPriority := 1,
                 pAffinity := r.toNat }
  pType event := if event then .interruptEvent else .dummyCallEvent
  mTimerEventType _ := .oneshot
  pDummyEvent := false
  pDummyEvent_pType := rfl

/-- The first of two tasks of the trigger is locked. -/
theorem fifo_order_triggerPerCPU : ∃ m : State 2 Bool Bool (Fin 2) (FifoQueue 2),
    Run (fun m l m' => Step multiFifoStrategy triggerPerCPU m l m' ∧ Keeps triggerPerCPU m l)
      State.initial [.enqueueEvent 0 true false, .enqueueEvent 1 true false, .releaseStack 0,
        .getEvent 0, .lockQueue 0, .locked 0 (.mFifoInterruptQueue 0) 0 false] m ∧
      tasksOf (.mFifoInterruptQueue 0) false (dispatched [.enqueueEvent 0 true false,
        .enqueueEvent 1 true false, .releaseStack 0, .getEvent 0, .lockQueue 0,
        (.locked 0 (.mFifoInterruptQueue 0) 0 false : Label 2 Bool Bool (Fin 2) (FifoQueue 2))]) <+:
      tasksOf (.mFifoInterruptQueue 0) false (enqueued multiFifoStrategy triggerPerCPU
        [.enqueueEvent 0 true false, .enqueueEvent 1 true false, .releaseStack 0, .getEvent 0,
          .lockQueue 0,
          (.locked 0 (.mFifoInterruptQueue 0) 0 false :
            Label 2 Bool Bool (Fin 2) (FifoQueue 2))]) := by
  have hafter : (([.enqueueEvent 0 true false, .enqueueEvent 1 true false, .releaseStack 0,
      .getEvent 0, .lockQueue 0, .locked 0 (.mFifoInterruptQueue 0) 0 false] :
        List (Label 2 Bool Bool (Fin 2) (FifoQueue 2))).foldlM
          (State.after multiFifoStrategy triggerPerCPU) State.initial).isSome := by decide +kernel
  obtain ⟨m, hm⟩ := Option.isSome_iff_exists.mp hafter
  -- no task ends in this run
  have hrun := (run_of_afterAll hm).guard (Keeps triggerPerCPU) (by simp [Keeps])
  exact ⟨m, hrun, fifo_order hrun _ false⟩

/-- While the second CPU runs a task of the component, the first CPU is refused the lock for the
earlier of its two tasks; the task on the second CPU ends; the lock for the later one is granted. -/
theorem dequeueFirstLocked_overtakes :
    ¬ ∀ (ls : List (Label 2 Bool Bool (Fin 3) (FifoQueue 2)))
        (m : State 2 Bool Bool (Fin 3) (FifoQueue 2)) (q : FifoQueue 2) (r : Bool),
      Run (Step multiFifoStrategy triggerPerCPU) State.initial ls m →
        tasksOf q r (dispatched ls) <+: tasksOf q r (enqueued multiFifoStrategy triggerPerCPU ls) := by
  intro hall
  have hafter : (([.enqueueEvent 0 true true, .enqueueEvent 1 true false,
      .enqueueEvent 2 true false, .releaseStack 1, .getEvent 1, .lockQueue 1,
      .locked 1 (.mFifoInterruptQueue 1) 0 true, .getFreeStack 1, .activate 1, .releaseStack 0,
      .getEvent 0, .lockQueue 0, .refused 0, .eventTaskFinished 1,
      .locked 0 (.mFifoInterruptQueue 0) 2 false] :
        List (Label 2 Bool Bool (Fin 3) (FifoQueue 2))).foldlM
          (State.after multiFifoStrategy triggerPerCPU) State.initial).isSome := by decide +kernel
  obtain ⟨m, hm⟩ := Option.isSome_iff_exists.mp hafter
  have hprefix := hall _ m (.mFifoInterruptQueue 0) false (run_of_afterAll hm)
  revert hprefix
  decide

end Dispatcher

end CyPhOS
