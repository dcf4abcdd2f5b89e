import CyPhOS.EventHandling.SchedulerRefinement

/-! # What a scan passes

Whatever the other CPUs do, a scan passes a task only for a reason: in this scan the lock was refused
to that task, or to one in front of it that is the same to the strategy (`Strategy.Skips`). To the
priority strategies the tasks of one priority are the same, to the fifo strategies no two tasks are.
So what stands in front of a task that is locked was locked out when the scan came by
(`scan_passes`).

With `SingleQueuePriorityStrategy` all tasks wait in one queue, and this holds of all that wait
anywhere (`single_queue_priority`).
-/

namespace CyPhOS

open Transition

variable {n : Nat} {O E R T Q : Type} [DecidableEq T] [Fintype T]

/-- All tasks in one queue, in the order of the priorities. A CPU looks through it as its own queue
and once more as the queue of all. -/
def singleQueuePriorityStrategy : Strategy n O T Unit where
  queueOf _ _ := ()
  scanned _ := [(), ()]
  enqueue := (multiQueuePriorityStrategy (n := n)).enqueue
  next := (multiQueuePriorityStrategy (n := n)).next
  Kept := (multiQueuePriorityStrategy (n := n)).Kept
  kept_nil := (multiQueuePriorityStrategy (n := n)).kept_nil
  kept_sublist := (multiQueuePriorityStrategy (n := n)).kept_sublist
  kept_congr := (multiQueuePriorityStrategy (n := n)).kept_congr
  enqueue_spec := (multiQueuePriorityStrategy (n := n)).enqueue_spec
  next_spec := (multiQueuePriorityStrategy (n := n)).next_spec

/-- The queues of the fifo strategy without queues per CPU. -/
inductive SharedQueue
  | mFifoInterruptQueue
  | mFifoQueue
  deriving DecidableEq

/-- The queues of `FifoStrategy`: all CPUs look for interrupt events first. -/
def fifoStrategy : Strategy n O T SharedQueue where
  queueOf _ pType := if pType = .interruptEvent then .mFifoInterruptQueue else .mFifoQueue
  scanned _ := [.mFifoInterruptQueue, .mFifoQueue]
  enqueue := (multiFifoStrategy (n := n)).enqueue
  next := (multiFifoStrategy (n := n)).next
  Kept := (multiFifoStrategy (n := n)).Kept
  kept_nil := (multiFifoStrategy (n := n)).kept_nil
  kept_sublist := (multiFifoStrategy (n := n)).kept_sublist
  kept_congr := (multiFifoStrategy (n := n)).kept_congr
  enqueue_spec := (multiFifoStrategy (n := n)).enqueue_spec
  next_spec := (multiFifoStrategy (n := n)).next_spec

/-- A refused task is passed together with those behind it that are the same. -/
structure Strategy.Skips (strategy : Strategy n O T Q)
    (same : (T → Option (Trigger O)) → T → T → Prop) : Prop where
  refl : ∀ trigger t, same trigger t t
  congr : ∀ {trigger trigger' t u}, trigger' t = trigger t → trigger' u = trigger u →
    (same trigger' t u ↔ same trigger t u)
  next : ∀ {trigger k q xs t ys}, Queue.Rep k q (xs ++ t :: ys) →
    strategy.Kept trigger (xs ++ t :: ys) → (∀ u ∈ xs ++ t :: ys, (trigger u).isSome) →
    ∃ zs ws, ys = zs ++ ws ∧ strategy.next trigger k t = .ok ws.head? ∧
      (∀ u ∈ zs, same trigger t u) ∧ ∀ u ∈ ws, ¬ same trigger t u

/-- The tasks have one priority. -/
def SamePriority (trigger : T → Option (Trigger O)) (t u : T) : Prop :=
  EventPriorityQueue.level trigger t = EventPriorityQueue.level trigger u

section
variable {trigger : T → Option (Trigger O)} {k : QueueElements T} {q : Queue T} {xs ys : List T}
  {t : T}

omit [DecidableEq T] in
theorem nextLevel_skips (h : q.Rep k (xs ++ t :: ys))
    (hsorted : (xs ++ t :: ys).Pairwise fun x y =>
      EventPriorityQueue.level trigger x ≤ EventPriorityQueue.level trigger y)
    (htriggered : ∀ u ∈ xs ++ t :: ys, (trigger u).isSome) :
    ∃ zs ws, ys = zs ++ ws ∧ EventPriorityQueue.nextLevel trigger k t = .ok ws.head? ∧
      (∀ u ∈ zs, SamePriority trigger t u) ∧ ∀ u ∈ ws, ¬ SamePriority trigger t u := by
  refine ⟨_, _, List.takeWhile_append_dropWhile.symm,
    EventPriorityQueue.nextLevel_eq h htriggered, fun u hu => ?_, fun u hu => ?_⟩
  · have hsame := List.mem_takeWhile_imp hu
    exact (of_decide_eq_true hsame).symm
  · have hrest := (List.pairwise_append.mp hsorted).2.1
    exact (StableOrder.lt_of_mem_dropWhile_eq hrest hu).ne

omit [DecidableEq T] [Fintype T] in
theorem samePriority_congr {trigger' : T → Option (Trigger O)} {t u : T}
    (ht : trigger' t = trigger t) (hu : trigger' u = trigger u) :
    SamePriority trigger' t u ↔ SamePriority trigger t u := by
  rw [SamePriority, SamePriority, EventPriorityQueue.level_congr ht,
    EventPriorityQueue.level_congr hu]

end

theorem multiQueuePriorityStrategy_skips :
    (multiQueuePriorityStrategy : Strategy n O T (Fin (n + 1))).Skips SamePriority where
  refl _ _ := rfl
  congr := samePriority_congr
  next := nextLevel_skips

theorem singleQueuePriorityStrategy_skips :
    (singleQueuePriorityStrategy : Strategy n O T Unit).Skips SamePriority where
  refl _ _ := rfl
  congr := samePriority_congr
  next := nextLevel_skips

omit [DecidableEq T] [Fintype T] in
/-- No task is passed without a try. -/
theorem eventQueueNext_skips {k : QueueElements T} {q : Queue T} {xs ys : List T} {t : T}
    (h : q.Rep k (xs ++ t :: ys)) : ∃ zs ws, ys = zs ++ ws ∧ EventQueue.next k t = .ok ws.head? ∧
      (∀ u ∈ zs, t = u) ∧ ∀ u ∈ ws, ¬ t = u := by
  refine ⟨[], ys, rfl, EventQueue.next_eq h, List.forall_mem_nil _, ?_⟩
  rintro u hu rfl
  exact (List.nodup_cons.mp (List.nodup_append.mp h.nodup).2.1).1 hu

theorem multiFifoStrategy_skips :
    (multiFifoStrategy : Strategy n O T (FifoQueue n)).Skips fun _ t u => t = u where
  refl _ _ := rfl
  congr _ _ := Iff.rfl
  next h _ _ := eventQueueNext_skips h

theorem fifoStrategy_skips :
    (fifoStrategy : Strategy n O T SharedQueue).Skips fun _ t u => t = u where
  refl _ _ := rfl
  congr _ _ := Iff.rfl
  next h _ _ := eventQueueNext_skips h

namespace Dispatcher

variable [DecidableEq O] [DecidableEq Q] {strategy : Strategy n O T Q} {program : Program O E R}
  {same : (T → Option (Trigger O)) → T → T → Prop} {m m' : State n E R T Q}
  {lists lists' : Q → List T} {l : Label n E R T Q} {ls : List (Label n E R T Q)} {cpu : Fin n}
  {q : Q} {t : T}

/-- In the scan of the queue in which the CPU is, the lock of the task was refused, since an active
task used one of its OSCs. -/
def RefusedInScan (strategy : Strategy n O T Q) (program : Program O E R)
    (ls : List (Label n E R T Q)) (m : State n E R T Q) (cpu : Fin n) (q : Q) (t : T) : Prop :=
  ∃ ls₁ m₁ rest ls₂, ls = ls₁ ++ .refused cpu :: ls₂ ∧
    Run (Step strategy program) State.initial ls₁ m₁ ∧ m₁.control cpu = .scanning q (some t) rest ∧
    OSCsInUse (m₁.trigger program) m₁.pActiveEventTask t ∧
    Run (Step strategy program) m₁ (.refused cpu :: ls₂) m ∧ .lockQueue cpu ∉ ls₂

theorem RefusedInScan.step (h : RefusedInScan strategy program ls m cpu q t)
    (hstep : Step strategy program m l m') (hlock : l ≠ .lockQueue cpu) :
    RefusedInScan strategy program (ls ++ [l]) m' cpu q t := by
  obtain ⟨ls₁, m₁, rest, ls₂, rfl, hrun₁, hcontrol, huse, hrun₂, hnot⟩ := h
  refine ⟨ls₁, m₁, rest, ls₂ ++ [l], by simp, hrun₁, hcontrol, huse, hrun₂.snoc hstep, ?_⟩
  simpa [hnot] using hlock.symm

/-- Every task that a scan has passed is the same as one in front of it that was refused, and none
that the scan has not passed is. -/
def Passed (strategy : Strategy n O T Q) (program : Program O E R)
    (same : (T → Option (Trigger O)) → T → T → Prop) (ls : List (Label n E R T Q))
    (m : State n E R T Q) (lists : Q → List T) : Prop :=
  ∀ cpu q o rest, m.control cpu = .scanning q o rest → ∀ xs ys, lists q = xs ++ ys →
    o = ys.head? → ∀ u ∈ xs, ∃ v ∈ xs, same (m.trigger program) v u ∧
      (∀ w ∈ ys, ¬ same (m.trigger program) v w) ∧ RefusedInScan strategy program ls m cpu q v

omit [DecidableEq T] [Fintype T] in
theorem split_head_unique {xs ys xs' ys' : List T} (hnodup : (xs ++ ys).Nodup)
    (h : xs ++ ys = xs' ++ ys') (hhead : ys.head? = ys'.head?) : xs = xs' ∧ ys = ys' := by
  cases ys with
  | nil =>
    obtain rfl := List.head?_eq_none_iff.mp hhead.symm
    exact ⟨by simpa using h, rfl⟩
  | cons y ys =>
    obtain ⟨zs, rfl⟩ := List.head?_eq_some_iff.mp hhead.symm
    obtain ⟨hxs, hys⟩ := split_unique hnodup h
    exact ⟨hxs, congrArg _ hys⟩

/-- A CPU that tries a task and still scans its queue was refused the lock. -/
theorem Step.refused_of_scanning (hstep : Step strategy program m l m') (hcpu : l.cpu = some cpu)
    {rest rest' : List Q} {q' : Q} {o : Option T} (hold : m.control cpu = .scanning q (some t) rest)
    (hscan : m'.control cpu = .scanning q' o rest') : l = .refused cpu := by
  cases hstep with
  | enqueueEvent => cases hcpu
  | refused =>
    cases hcpu
    rfl
  | locked | unlockQueue =>
    cases hcpu
    rw [State.goto_control_self] at hscan
    cases hscan
  | releaseStack hc | getEvent hc | lockQueue hc | noEvent hc | getFreeStack hc | noStack hc
  | requeue hc | activate hc | eventTaskFinished hc =>
    cases hcpu
    simp [hold] at hc

theorem Passed.step (hskips : strategy.Skips same) (h : Passed strategy program same ls m lists)
    (hrun : Run (Step strategy program) State.initial ls m)
    (hgood : Good strategy program m lists) (hstep : Step strategy program m l m')
    (hmoved : Moved strategy program m lists lists' l) :
    Passed strategy program same (ls ++ [l]) m' lists' := by
  intro cpu q o rest hscan xs ys hsplit ho u hu
  have hnodup := (hgood.lined.family.rep q).nodup
  by_cases hcpu : l.cpu = some cpu
  swap
  · have hold := (hgood.control_of_ne hstep hcpu).symm.trans hscan
    rw [hgood.scanned_eq hstep hmoved hold fun _ _ _ e => hcpu (by rw [e]; rfl)] at hsplit
    have hcongr : ∀ a ∈ xs ++ ys, m'.trigger program a = m.trigger program a := fun a ha =>
      hgood.trigger_congr hstep (hsplit ▸ ha)
    obtain ⟨v, hv, hvu, hvw, hrefused⟩ := h cpu q o rest hold xs ys hsplit ho u hu
    have hv' := hcongr v (by simp [hv])
    refine ⟨v, hv, (hskips.congr hv' (hcongr u (by simp [hu]))).mpr hvu, fun w hw => ?_,
      hrefused.step hstep fun e => hcpu (by rw [e]; rfl)⟩
    rw [hskips.congr hv' (hcongr w (by simp [hw]))]
    exact hvw w hw
  rcases hgood.scan_cases hstep hmoved hscan with ⟨hne, -⟩ | ⟨rfl, hhead⟩ |
    ⟨t₀, xs₀, ys₀, rfl, hgoto, hold, hsplit₀, hcall, hnext⟩
  · exact absurd hcpu hne
  · -- nothing is in front of the head
    cases xs with
    | nil => cases hu
    | cons a xs =>
      rw [hsplit, List.cons_append, List.head?_cons, ho] at hhead
      rw [hsplit, List.cons_append, List.nodup_cons] at hnodup
      exact (hnodup.1 (List.mem_append_right _ (List.mem_of_mem_head? hhead))).elim
  · -- the scan has passed the refused task and those that are the same
    obtain rfl := hstep.refused_of_scanning hcpu hold hscan
    subst hgoto
    have hrep := hgood.lined.family.rep q
    have hkept := hgood.lined.kept q
    have htriggered : ∀ a ∈ lists' q, (m.trigger program a).isSome := fun a ha =>
      hgood.lined.triggered ha
    rw [hsplit₀] at hrep hkept htriggered
    obtain ⟨zs, ws, rfl, hnext', hzs, hws⟩ := hskips.next hrep hkept htriggered
    obtain rfl : o = ws.head? := Except.ok.inj (hnext.symm.trans hnext')
    have hsame : xs ++ ys = (xs₀ ++ t₀ :: zs) ++ ws := by
      rw [← hsplit, hsplit₀, List.append_assoc, List.cons_append]
    obtain ⟨rfl, rfl⟩ := split_head_unique (hsplit ▸ hnodup) hsame ho.symm
    rcases List.mem_append.mp hu with hu | hu
    · obtain ⟨v, hv, hvu, hvw, hrefused⟩ := h cpu q _ rest hold xs₀ (t₀ :: (zs ++ ys)) hsplit₀ rfl u hu
      exact ⟨v, List.mem_append_left _ hv, hvu, fun w hw => hvw w (by simp [hw]),
        hrefused.step hstep (by simp)⟩
    · have huse := (tryTaskLock_refused_iff hgood.triggered_active (hgood.agrees hold) hcall).mp rfl
      refine ⟨t₀, by simp, ?_, hws, ls, m, rest, [], rfl, hrun, hold, huse, .single hstep,
        List.not_mem_nil⟩
      rcases List.mem_cons.mp hu with rfl | hu
      · exact hskips.refl _ u
      · exact hzs u hu

theorem Passed.run (hskips : strategy.Skips same)
    (hrun : Run (Step strategy program) State.initial ls m) :
    ∃ lists, Good strategy program m lists ∧ Passed strategy program same ls m lists ∧
      Pending m lists := by
  induction hrun with
  | nil =>
    refine ⟨_, .initial, fun cpu q o rest hscan => ?_, fun t ht => absurd rfl ht⟩
    cases hscan
  | snoc hrun hstep ih =>
    obtain ⟨lists, hgood, hpassed, hpending⟩ := ih
    obtain ⟨lists', hgood', hmoved⟩ := hgood.step hstep
    exact ⟨lists', hgood', hpassed.step hskips hrun hgood hstep hmoved,
      hpending.step hgood hstep hmoved⟩

/-- Whatever the other CPUs do: a task that stands in front of one that is locked is the same to the
strategy as a task that also stands in front of the locked one and was refused in this scan since its
OSC was in use. And a scan ends without a task only when all tasks in the queue are the same to the
strategy as tasks of the queue that were refused so. -/
theorem scan_passes (hskips : strategy.Skips same)
    (hrun : Run (Step strategy program) State.initial ls m) :
    (∀ cpu q t r m', Step strategy program m (.locked cpu q t r) m' →
      ∀ xs ys, (m.queues q).Rep m.links (xs ++ t :: ys) → ∀ u ∈ xs, ∃ v ∈ xs,
        same (m.trigger program) v u ∧ ¬ same (m.trigger program) v t ∧
          RefusedInScan strategy program ls m cpu q v) ∧
      ∀ cpu q m', Step strategy program m (.unlockQueue cpu) m' →
        (m.control cpu).heldLock = some q → ∀ u, Queued m q u → ∃ v, Queued m q v ∧
          same (m.trigger program) v u ∧ RefusedInScan strategy program ls m cpu q v := by
  obtain ⟨lists, hgood, hpassed, -⟩ := Passed.run hskips hrun
  refine ⟨?_, ?_⟩
  · intro cpu q t r m' hstep xs ys hrep u hu
    cases hstep with
    | locked hcontrol hcall htrigger =>
      have hsplit := (hgood.lined.family.rep q).unique hrep
      obtain ⟨v, hv, hvu, hvw, hrefused⟩ := hpassed cpu q _ _ hcontrol xs (t :: ys) hsplit rfl u hu
      exact ⟨v, hv, hvu, hvw t (by simp), hrefused⟩
  · intro cpu q m' hstep hheld u hu
    cases hstep with
    | unlockQueue hcontrol =>
      rw [hcontrol] at hheld
      cases hheld
      obtain ⟨v, hv, hvu, -, hrefused⟩ := hpassed cpu q none _ hcontrol (lists q) [] (by simp) rfl u
        (hgood.queued_iff.mp hu)
      exact ⟨v, hgood.queued_iff.mpr hv, hvu, hrefused⟩

theorem softwareEvent_pType : (if (false : Bool) then EventType.softwareEvent else .dummyCallEvent) =
    .dummyCallEvent := rfl

/-- Two triggers with an OSC each, of different priorities. -/
def triggerPerOSC : Program Bool Bool Bool where
  trigger r := { pDestinationOSC := some r, pDeps := ⟨[none], DepArray.none_mem⟩,
                 pPriority := if r then 2 else 1 }
  pType event := if event then .softwareEvent else .dummyCallEvent
  mTimerEventType _ := .oneshot
  pDummyEvent := false
  pDummyEvent_pType := softwareEvent_pType

/-- CPU 1 was refused a task since CPU 0 runs one of its trigger, and locks one of the other. -/
theorem scan_passes_triggerPerOSC : ∃ m m' : State 2 Bool Bool (Fin 3) SharedQueue,
    Run (Step fifoStrategy triggerPerOSC) State.initial
      [.enqueueEvent 0 true true, .enqueueEvent 1 true true, .enqueueEvent 2 true false,
        .releaseStack 0, .getEvent 0, .lockQueue 0, .unlockQueue 0, .lockQueue 0,
        .locked 0 .mFifoQueue 0 true, .releaseStack 1, .getEvent 1, .lockQueue 1, .unlockQueue 1,
        .lockQueue 1, .refused 1] m ∧
      Step fifoStrategy triggerPerOSC m (.locked 1 .mFifoQueue 2 false) m' ∧
      ∀ xs ys, (m.queues .mFifoQueue).Rep m.links (xs ++ 2 :: ys) → ∀ u ∈ xs, ∃ v ∈ xs, v = u ∧
        ¬ v = 2 ∧ RefusedInScan fifoStrategy triggerPerOSC
          [.enqueueEvent 0 true true, .enqueueEvent 1 true true, .enqueueEvent 2 true false,
            .releaseStack 0, .getEvent 0, .lockQueue 0, .unlockQueue 0, .lockQueue 0,
            .locked 0 .mFifoQueue 0 true, .releaseStack 1, .getEvent 1, .lockQueue 1,
            .unlockQueue 1, .lockQueue 1, .refused 1] m 1 .mFifoQueue v := by
  have hafter : (([.enqueueEvent 0 true true, .enqueueEvent 1 true true,
      .enqueueEvent 2 true false, .releaseStack 0, .getEvent 0, .lockQueue 0, .unlockQueue 0,
      .lockQueue 0, .locked 0 .mFifoQueue 0 true, .releaseStack 1, .getEvent 1, .lockQueue 1,
      .unlockQueue 1, .lockQueue 1, .refused 1] : List (Label 2 Bool Bool (Fin 3)
        SharedQueue)).foldlM (State.after fifoStrategy triggerPerOSC) State.initial).any fun m =>
          (m.after fifoStrategy triggerPerOSC (.locked 1 .mFifoQueue 2 false)).isSome := by
    decide +kernel
  obtain ⟨m, hm, hlocked⟩ := (Option.any_eq_true _ _).mp hafter
  obtain ⟨m', hm'⟩ := Option.isSome_iff_exists.mp hlocked
  have hstep := Step.of_after hm'
  exact ⟨m, m', run_of_afterAll hm, hstep, fun xs ys =>
    (scan_passes fifoStrategy_skips (run_of_afterAll hm)).1 1 .mFifoQueue 2 false m' hstep xs ys⟩

/-- Under the single queue strategy, when a task is locked, every task of a higher priority that
waits anywhere has the priority of a waiting task that was refused in this scan since its OSC was in
use. -/
theorem single_queue_priority {m m' : State n E R T Unit} {ls : List (Label n E R T Unit)} {r : R}
    (hrun : Run (Step singleQueuePriorityStrategy program) State.initial ls m)
    (hstep : Step singleQueuePriorityStrategy program m (.locked cpu () t r) m') {u : T} {r' : R}
    (hwaiting : status m u = .waiting r')
    (hpriority : (program.trigger r).pPriority < (program.trigger r').pPriority) :
    ∃ v r'', status m v = .waiting r'' ∧
      (program.trigger r'').pPriority = (program.trigger r').pPriority ∧
      RefusedInScan singleQueuePriorityStrategy program ls m cpu () v := by
  obtain ⟨lists, hgood, hpassed, hpending⟩ := Passed.run singleQueuePriorityStrategy_skips hrun
  obtain ⟨htrigger, hinactive⟩ := of_status_waiting hwaiting
  have hlevel : ∀ {a : T} {ra : R}, (m.eventTask a).trigger = some ra →
      EventPriorityQueue.level (m.trigger program) a =
        OrderDual.toDual (program.trigger ra).pPriority := fun {a ra} ha =>
    EventPriorityQueue.level_eq (by rw [State.trigger, ha]; rfl)
  have hu : u ∈ lists () := by
    rcases hpending u (by simp [htrigger]) with ⟨q, hq⟩ | ⟨cpu', hcpu'⟩
    · exact hq
    · exact absurd hcpu' (hinactive cpu')
  cases hstep with
  | @locked _ _ _ rest active _ hcontrol hcall hlocked =>
    obtain ⟨xs, ys, hsplit, hhead⟩ := hgood.lined.scan cpu () _ rest hcontrol
    obtain ⟨zs, rfl⟩ := List.head?_eq_some_iff.mp hhead.symm
    have hsorted : (lists ()).Pairwise fun x y =>
        EventPriorityQueue.level (m.trigger program) x ≤
          EventPriorityQueue.level (m.trigger program) y := hgood.lined.kept ()
    have hlt : EventPriorityQueue.level (m.trigger program) u <
        EventPriorityQueue.level (m.trigger program) t := by
      rw [hlevel htrigger, hlevel hlocked]
      exact OrderDual.toDual_lt_toDual.mpr hpriority
    have hfront : u ∈ xs := by
      rw [hsplit] at hu hsorted
      rcases List.mem_append.mp hu with hu | hu
      · exact hu
      rcases List.mem_cons.mp hu with rfl | hu
      · exact absurd hlt (lt_irrefl _)
      · have hle := (List.pairwise_cons.mp (List.pairwise_append.mp hsorted).2.1).1 u hu
        exact absurd hlt hle.not_gt
    obtain ⟨v, hv, hvu, -, hrefused⟩ := hpassed cpu () _ rest hcontrol xs (t :: zs) hsplit rfl u
      hfront
    have hv' : v ∈ lists () := by simp [hsplit, hv]
    obtain ⟨r'', e, hr'', -⟩ := hgood.lined.queued () v hv'
    refine ⟨v, r'', status_waiting hr'' fun cpu' ht => (hgood.cycled.active cpu' v ht).2 () hv', ?_,
      hrefused⟩
    rw [SamePriority, hlevel hr'', hlevel htrigger] at hvu
    exact OrderDual.toDual_inj.mp hvu

theorem single_queue_priority_triggerPerOSC : ∃ m m' : State 2 Bool Bool (Fin 3) Unit,
    Run (Step singleQueuePriorityStrategy triggerPerOSC) State.initial
      [.enqueueEvent 2 true false, .enqueueEvent 0 true true, .enqueueEvent 1 true true,
        .releaseStack 0, .getEvent 0, .lockQueue 0, .locked 0 () 0 true, .releaseStack 1,
        .getEvent 1, .lockQueue 1, .refused 1] m ∧
      Step singleQueuePriorityStrategy triggerPerOSC m (.locked 1 () 2 false) m' ∧
      ∃ v r'', status m v = .waiting r'' ∧ (triggerPerOSC.trigger r'').pPriority = 2 ∧
        RefusedInScan singleQueuePriorityStrategy triggerPerOSC
          [.enqueueEvent 2 true false, .enqueueEvent 0 true true, .enqueueEvent 1 true true,
            .releaseStack 0, .getEvent 0, .lockQueue 0, .locked 0 () 0 true, .releaseStack 1,
            .getEvent 1, .lockQueue 1, .refused 1] m 1 () v := by
  have hafter : (([.enqueueEvent 2 true false, .enqueueEvent 0 true true,
      .enqueueEvent 1 true true, .releaseStack 0, .getEvent 0, .lockQueue 0, .locked 0 () 0 true,
      .releaseStack 1, .getEvent 1, .lockQueue 1, .refused 1] : List (Label 2 Bool Bool (Fin 3)
        Unit)).foldlM (State.after singleQueuePriorityStrategy triggerPerOSC) State.initial).any
          fun m => (m.after singleQueuePriorityStrategy triggerPerOSC
            (.locked 1 () 2 false)).isSome ∧ (m.eventTask 1).trigger = some true ∧
              ∀ cpu, m.pActiveEventTask cpu ≠ some 1 := by
    decide +kernel
  obtain ⟨m, hm, hfacts⟩ := (Option.any_eq_true _ _).mp hafter
  obtain ⟨hlocked, htrigger, hinactive⟩ := of_decide_eq_true hfacts
  obtain ⟨m', hm'⟩ := Option.isSome_iff_exists.mp hlocked
  have hstep := Step.of_after hm'
  exact ⟨m, m', run_of_afterAll hm, hstep, single_queue_priority (run_of_afterAll hm) hstep
    (status_waiting htrigger hinactive) (by decide)⟩

end Dispatcher

end CyPhOS
