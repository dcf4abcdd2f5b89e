import CyPhOS.EventHandling.DispatchOrder

/-! # Affinity

A trigger with the number of a CPU as its affinity is for that CPU, any other affinity is for all of
them. `enqueueEvent` cuts the affinity down to a `cpu_t`, eight bits, before it compares it with the
number of CPUs. `FitsQueues` says when that makes no difference: then the CPUs that look into the
queue of a task are the ones its trigger allows. Both strategies choose the CPU in this way
(`ByReadyQueue`).
-/

namespace CyPhOS

open Transition

namespace Dispatcher

variable {n : Nat} {O E R T Q : Type}

/-- The affinity is the number of the CPU, or of no CPU. -/
def Allowed (n pAffinity : Nat) (cpu : Fin n) : Prop := pAffinity = cpu ∨ n ≤ pAffinity

/-- The affinities that choose the queue they are meant to choose. -/
def FitsQueues (n pAffinity : Nat) : Prop :=
  pAffinity < 2 ^ 8 ∨ n ≤ pAffinity % 2 ^ 8 ∨ n ≤ 1

theorem readyQueue_eq_castSucc {pAffinity : Nat} {cpu : Fin n} :
    (Tasks.readyQueue pAffinity : Fin (n + 1)) = cpu.castSucc ↔ pAffinity % 2 ^ 8 = cpu := by
  unfold Tasks.readyQueue
  split
  · next h => simp [Fin.ext_iff]
  · next h =>
    have hcpu := cpu.isLt
    simp only [Fin.ext_iff, Fin.val_last, Fin.val_castSucc]
    omega

theorem readyQueue_eq_last {pAffinity : Nat} :
    (Tasks.readyQueue pAffinity : Fin (n + 1)) = Fin.last n ↔ n ≤ pAffinity % 2 ^ 8 := by
  unfold Tasks.readyQueue
  split
  · next h =>
    simp only [Fin.ext_iff, Fin.val_last]
    omega
  · next h => simpa using h

/-- The CPUs that look into the queue are the allowed ones exactly if the affinity fits. -/
theorem fitsQueues_iff {pAffinity : Nat} :
    FitsQueues n pAffinity ↔ ∀ cpu : Fin n,
      (Tasks.readyQueue pAffinity : Fin (n + 1)) = cpu.castSucc ∨
        (Tasks.readyQueue pAffinity : Fin (n + 1)) = Fin.last n ↔ Allowed n pAffinity cpu := by
  simp only [readyQueue_eq_castSucc, readyQueue_eq_last, Allowed, FitsQueues]
  have hle := Nat.mod_le pAffinity (2 ^ 8)
  constructor
  · intro hfits cpu
    have hcpu := cpu.isLt
    rcases hfits with hsmall | hlarge | hone
    · rw [Nat.mod_eq_of_lt hsmall]
    · exact ⟨fun _ => .inr (hlarge.trans hle), fun _ => .inr hlarge⟩
    · omega
  · intro h
    by_contra hnot
    simp only [not_or, not_lt, not_le] at hnot
    obtain ⟨hbig, hcut, hmany⟩ := hnot
    have hself := (h ⟨pAffinity % 2 ^ 8, hcut⟩).mp (.inl rfl)
    -- a second CPU does not find the task
    obtain ⟨other, hother⟩ : ∃ other : Fin n, pAffinity % 2 ^ 8 ≠ other := by
      rcases Nat.eq_zero_or_pos (pAffinity % 2 ^ 8) with hzero | hpos
      · refine ⟨⟨1, hmany⟩, ?_⟩
        rw [hzero]
        exact Nat.zero_ne_one
      · exact ⟨⟨0, Nat.lt_of_succ_lt hmany⟩, hpos.ne'⟩
    have hnone := (h other).not.mp (by omega)
    simp only at hself
    omega

/-- The queue of a task is chosen by the affinity of its trigger, which is how the CPUs look
through the queues. -/
def ByReadyQueue [DecidableEq T] [Fintype T] (strategy : Strategy n O T Q) : Prop :=
  ∀ trigger pType cpu, strategy.queueOf trigger pType ∈ strategy.scanned cpu ↔
    (Tasks.readyQueue trigger.pAffinity : Fin (n + 1)) = cpu.castSucc ∨
      (Tasks.readyQueue trigger.pAffinity : Fin (n + 1)) = Fin.last n

theorem multiQueuePriorityStrategy_byReadyQueue [DecidableEq T] [Fintype T] :
    ByReadyQueue (multiQueuePriorityStrategy : Strategy n O T (Fin (n + 1))) := by
  intro trigger pType cpu
  simp [multiQueuePriorityStrategy]

theorem multiFifoStrategy_byReadyQueue [DecidableEq T] [Fintype T] :
    ByReadyQueue (multiFifoStrategy : Strategy n O T (FifoQueue n)) := by
  intro trigger pType cpu
  by_cases htype : pType = .interruptEvent <;> simp [multiFifoStrategy, htype]

section
variable [DecidableEq T] [Fintype T] (strategy : Strategy n O T Q)

omit [DecidableEq T] [Fintype T] in
/-- The task waits in the queue. -/
def Queued (m : State n E R T Q) (q : Q) (t : T) : Prop :=
  ∃ pos, (m.queues q).get m.links pos = some t

/-- `getEvent` on the CPU looks into the queue of the task. -/
def Candidate (m : State n E R T Q) (cpu : Fin n) (t : T) : Prop :=
  ∃ q ∈ strategy.scanned cpu, Queued m q t

/-- A CPU looks into its own queues only, and runs tasks from there. -/
structure Searched (program : Program O E R) (m : State n E R T Q) : Prop where
  searching : ∀ cpu rest, m.control cpu = .searching rest → rest ⊆ strategy.scanned cpu
  scanning : ∀ cpu q o rest, m.control cpu = .scanning q o rest →
    q :: rest ⊆ strategy.scanned cpu
  active : ∀ cpu t, m.pActiveEventTask cpu = some t → ∃ r e, (m.eventTask t).trigger = some r ∧
    strategy.queueOf (program.trigger r) (program.pType e) ∈ strategy.scanned cpu

end

section
variable [DecidableEq O] [DecidableEq T] [Fintype T] [DecidableEq Q]
  {strategy : Strategy n O T Q} {program : Program O E R} {m m' : State n E R T Q}
  {lists lists' : Q → List T} {l : Label n E R T Q} {ls : List (Label n E R T Q)}

/-- The table gets its tasks from `tryTaskLock`. -/
theorem Good.active_cases (h : Good strategy program m lists)
    (hstep : Step strategy program m l m') {cpu : Fin n} {t : T}
    (ht : m'.pActiveEventTask cpu = some t) :
    m.pActiveEventTask cpu = some t ∧ l ≠ .eventTaskFinished cpu ∨
      ∃ q r, l = .locked cpu q t r := by
  cases hstep with
  | enqueueEvent hpool hfree hcall =>
    obtain ⟨-, -, -, -, -, -, -, -, hactive⟩ := h.enqueueEvent hpool hfree hcall
    exact .inl ⟨hactive ▸ ht, by simp⟩
  | releaseStack hcontrol =>
    unfold State.releaseStack at ht
    split at ht <;> exact .inl ⟨ht, by simp⟩
  | @locked cpu' q t' rest active r hcontrol hcall htrigger =>
    obtain rfl : active = Function.update m.pActiveEventTask cpu' (some t') := by
      simpa using (tryTaskLock_cases hcall).2
    rcases eq_or_ne cpu cpu' with rfl | hne
    · obtain rfl : t' = t := by simpa [State.goto] using ht
      exact .inr ⟨q, r, rfl⟩
    · exact .inl ⟨(Function.update_of_ne hne _ _).symm.trans ht, by simp⟩
  | requeue hcontrol => exact (h.agrees hcontrol).elim
  | @activate cpu' task hcontrol =>
    obtain ⟨c, pStackPointers, heq, -⟩ := m.activate_eq cpu' task
    rw [heq] at ht
    exact .inl ⟨ht, by simp⟩
  | @eventTaskFinished cpu' t' hcontrol hactive =>
    rcases eq_or_ne cpu cpu' with rfl | hne
    · simp [State.goto, State.eventTaskFinished, unlockTask] at ht
    · refine .inl ⟨?_, fun e => hne (Label.eventTaskFinished.inj e).symm⟩
      simpa [State.goto, State.eventTaskFinished, unlockTask, State.setTask, hne] using ht
  | _ => exact .inl ⟨ht, by simp⟩

theorem Searched.step (h : Searched strategy program m) (hgood : Good strategy program m lists)
    (hstep : Step strategy program m l m') : Searched strategy program m' where
  searching cpu rest hc := by
    by_cases hcpu : l.cpu = some cpu
    · cases hstep with
      | enqueueEvent => cases hcpu
      | getEvent hcontrol =>
        cases hcpu
        rw [State.goto_control_self] at hc
        cases hc
        exact List.Subset.refl _
      | unlockQueue hcontrol =>
        cases hcpu
        rw [State.goto_control_self] at hc
        cases hc
        exact fun q hq => h.scanning _ _ _ _ hcontrol (.tail _ hq)
      | requeue hcontrol => exact (hgood.agrees hcontrol).elim
      | @activate cpu' task hcontrol =>
        cases hcpu
        rcases m.activate_control cpu task with e | e | e <;> cases e.symm.trans hc
      | _ =>
        cases hcpu
        rw [State.goto_control_self] at hc
        cases hc
    · rw [hgood.control_of_ne hstep hcpu] at hc
      exact h.searching cpu rest hc
  scanning cpu q o rest hc := by
    by_cases hcpu : l.cpu = some cpu
    · cases hstep with
      | enqueueEvent => cases hcpu
      | lockQueue hcontrol hfree =>
        cases hcpu
        rw [State.goto_control_self] at hc
        cases hc
        exact h.searching _ _ hcontrol
      | refused hcontrol hcall hnext =>
        cases hcpu
        rw [State.goto_control_self] at hc
        cases hc
        exact h.scanning _ _ _ _ hcontrol
      | requeue hcontrol => exact (hgood.agrees hcontrol).elim
      | @activate cpu' task hcontrol =>
        cases hcpu
        rcases m.activate_control cpu task with e | e | e <;> cases e.symm.trans hc
      | _ =>
        cases hcpu
        rw [State.goto_control_self] at hc
        cases hc
    · rw [hgood.control_of_ne hstep hcpu] at hc
      exact h.scanning cpu q o rest hc
  active cpu t ht := by
    obtain ⟨lists', -, hmoved⟩ := hgood.step hstep
    rcases hgood.active_cases hstep ht with ⟨hold, hl⟩ | ⟨q, r, rfl⟩
    · obtain ⟨r, e, hr, hq⟩ := h.active cpu t hold
      refine ⟨r, e, ?_, hq⟩
      rw [(hgood.active_keep hstep hold hl).2, hr]
    · obtain ⟨xs, ys, hsplit, -⟩ := hmoved
      obtain ⟨r', e, hr', -, hq⟩ := hgood.lined.queued q t (by simp [hsplit])
      cases hstep with
      | locked hcontrol hcall htrigger =>
        refine ⟨r', e, hr', ?_⟩
        rw [hq]
        exact h.scanning _ _ _ _ hcontrol (by simp)

theorem Searched.run (hrun : Run (Step strategy program) State.initial ls m) :
    Searched strategy program m ∧ ∃ lists, Good strategy program m lists := by
  refine hrun.invariant
    (motive := fun m => Searched strategy program m ∧ ∃ lists, Good strategy program m lists)
    ⟨⟨fun _ _ hc => ?_, fun _ _ _ _ hc => ?_, fun _ _ ht => ?_⟩, _, Good.initial⟩ ?_
  · cases hc
  · cases hc
  · cases ht
  · intro m l m' ⟨h, lists, hgood⟩ hstep
    obtain ⟨lists', hgood', -⟩ := hgood.step hstep
    exact ⟨h.step hgood hstep, lists', hgood'⟩

omit [DecidableEq O] [DecidableEq Q] in
/-- A task waits in one queue, the one of its trigger and event. -/
theorem Good.queued_iff (h : Good strategy program m lists) {q : Q} {t : T} :
    Queued m q t ↔ t ∈ lists q := by
  rw [Queued, List.mem_iff_getElem?]
  exact exists_congr fun pos => by rw [(h.lined.family.rep q).get]

/-- What the affinity of a trigger demands of a strategy, and when it is met. -/
def AffinityRespected (strategy : Strategy n O T Q) (program : Program O E R) : Prop :=
  ∀ ls m, Run (Step strategy program) State.initial ls m →
    (∀ cpu t r, m.control cpu = .returned (some t) → (m.eventTask t).trigger = some r →
      FitsQueues n (program.trigger r).pAffinity → Allowed n (program.trigger r).pAffinity cpu) ∧
    ∀ q t r, Queued m q t → (m.eventTask t).trigger = some r →
      (FitsQueues n (program.trigger r).pAffinity ↔
        ∀ cpu, Candidate strategy m cpu t ↔ Allowed n (program.trigger r).pAffinity cpu)

theorem ByReadyQueue.affinityRespected (hqueue : ByReadyQueue strategy)
    (program : Program O E R) : AffinityRespected strategy program := by
  intro ls m hrun
  obtain ⟨hsearched, lists, hgood⟩ := Searched.run hrun
  refine ⟨fun cpu t r hreturned hr hfits => ?_, fun q t r hqueued hr => ?_⟩
  · obtain ⟨r', e, hr', hscanned⟩ := hsearched.active cpu t (hgood.agrees hreturned)
    cases hr.symm.trans hr'
    exact (fitsQueues_iff.mp hfits cpu).mp ((hqueue _ _ cpu).mp hscanned)
  · obtain ⟨r', e, hr', -, hq⟩ := hgood.lined.queued q t (hgood.queued_iff.mp hqueued)
    cases hr.symm.trans hr'
    rw [fitsQueues_iff]
    refine forall_congr' fun cpu => ?_
    have hcandidate : Candidate strategy m cpu t ↔ q ∈ strategy.scanned cpu := by
      refine ⟨fun ⟨q', hq', ht⟩ => ?_, fun hq => ⟨q, hq, hqueued⟩⟩
      rwa [hgood.lined.family.disjoint q q' t (hgood.queued_iff.mp hqueued)
        (hgood.queued_iff.mp ht)]
    rw [hcandidate, ← hq, hqueue]

end

/-- Over every run of either strategy: if the affinity of a trigger fits, its tasks are returned
only to CPUs that it allows, and for a task that waits in a queue the CPUs that look for it are the
allowed ones exactly if the affinity fits. -/
theorem affinity_respected [DecidableEq O] [DecidableEq T] [Fintype T] (program : Program O E R) :
    AffinityRespected (multiQueuePriorityStrategy : Strategy n O T (Fin (n + 1))) program ∧
      AffinityRespected (multiFifoStrategy : Strategy n O T (FifoQueue n)) program :=
  ⟨multiQueuePriorityStrategy_byReadyQueue.affinityRespected program,
    multiFifoStrategy_byReadyQueue.affinityRespected program⟩

/-- One trigger whose affinity has more than eight bits. -/
def wideAffinity : Program Unit Bool Unit where
  __ := oneTrigger
  trigger _ := { pDestinationOSC := some (), pDeps := ⟨[none], DepArray.none_mem⟩, pPriority := 1,
                 pAffinity := 0x100 }

/-- The affinity 0x100 is not the number of a CPU, yet only the first of two CPUs looks for the
task. -/
theorem enqueueEvent_narrows_affinity :
    ¬ ∀ (ls : List (Label 2 Bool Unit Bool (Fin 3))) (m : State 2 Bool Unit Bool (Fin 3)),
      Run (Step multiQueuePriorityStrategy wideAffinity) State.initial ls m →
        ∀ cpu q t r, Queued m q t → (m.eventTask t).trigger = some r →
          2 ≤ (wideAffinity.trigger r).pAffinity →
            Candidate (multiQueuePriorityStrategy : Strategy 2 Unit Bool (Fin 3)) m cpu t := by
  intro hall
  have hafter : (([.enqueueEvent false true ()] : List (Label 2 Bool Unit Bool (Fin 3))).foldlM
      (State.after multiQueuePriorityStrategy wideAffinity) State.initial).any fun m =>
        (m.queues 0).get m.links 0 = some false ∧ (m.eventTask false).trigger = some () := by
    decide +kernel
  obtain ⟨m, hm, hwaits⟩ := (Option.any_eq_true _ _).mp hafter
  obtain ⟨hget, htrigger⟩ := of_decide_eq_true hwaits
  have hqueued : Queued m 0 false := ⟨0, hget⟩
  have hrun := run_of_afterAll hm
  have hrespected :=
    multiQueuePriorityStrategy_byReadyQueue.affinityRespected wideAffinity _ m hrun
  have hfits := (hrespected.2 0 false () hqueued htrigger).mpr fun cpu =>
    ⟨fun _ => .inr (by decide), fun _ => hall _ m hrun cpu 0 false () hqueued htrigger (by decide)⟩
  simp [FitsQueues, wideAffinity] at hfits

end Dispatcher

end CyPhOS
