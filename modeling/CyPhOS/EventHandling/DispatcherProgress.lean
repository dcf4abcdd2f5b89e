import CyPhOS.EventHandling.DispatchOrder

/-! # The dispatcher does not block

A CPU in the dispatch cycle waits for nothing but the lock of a queue. Whoever holds that lock can go
on (`Good.exists_step`) and gives it back after it has been refused each task of the queue once at
most, since the queue stays as it is while it is scanned (`Scans.step`).
-/

namespace CyPhOS

open Transition

namespace Dispatcher

variable {n : Nat} {O E R T Q : Type} [DecidableEq O] [DecidableEq T] [Fintype T] [DecidableEq Q]
  {strategy : Strategy n O T Q} {program : Program O E R} {m m' : State n E R T Q}
  {lists lists' : Q → List T} {l : Label n E R T Q} {ls ls' : List (Label n E R T Q)}
  {cpu : Fin n} {q : Q}

/-- The CPU waits for a lock that another CPU holds. -/
def WaitsFor (m : State n E R T Q) (cpu cpu' : Fin n) : Prop :=
  ∃ q rest, m.control cpu = .searching (q :: rest) ∧ (m.control cpu').heldLock = some q

/-- The task at the position of a scan gets its lock or is refused it. -/
theorem Good.exists_scan_step (h : Good strategy program m lists)
    (hdestination : ∀ r, (program.trigger r).pDestinationOSC ≠ none) {t : T} {rest : List Q}
    (hcontrol : m.control cpu = .scanning q (some t) rest) :
    ∃ l m', Step strategy program m l m' ∧ l.cpu = some cpu := by
  obtain ⟨xs, ys, hsplit, hhead⟩ := h.lined.scan cpu q _ rest hcontrol
  obtain ⟨zs, rfl⟩ := List.head?_eq_some_iff.mp hhead.symm
  have hrep := h.lined.family.rep q
  rw [hsplit] at hrep
  have htriggered : ∀ u ∈ xs ++ t :: zs, (m.trigger program u).isSome := fun u hu =>
    h.lined.triggered (hsplit ▸ hu)
  obtain ⟨r, e, htrigger, -⟩ := h.lined.queued q t (by simp [hsplit])
  have htr : m.trigger program t = some (program.trigger r) := by
    simp [State.trigger, htrigger]
  obtain ⟨osc, hosc⟩ := Option.ne_none_iff_exists'.mp (hdestination r)
  have hnone : m.pActiveEventTask cpu = none := h.agrees hcontrol
  obtain ⟨granted, active, hcall, -, htrue, hfalse⟩ :=
    tryTaskLock_spec htr hosc h.triggered_active hnone
  cases granted with
  | true => exact ⟨_, _, .locked hcontrol hcall htrigger, rfl⟩
  | false =>
    obtain ⟨ws, vs, -, hnext⟩ := strategy.next_spec hrep htriggered
    exact ⟨_, _, .refused hcontrol (hfalse rfl ▸ hcall) hnext, rfl⟩

/-- A CPU can go on, or it waits for a lock. -/
theorem Good.exists_step (h : Good strategy program m lists)
    (hdestination : ∀ r, (program.trigger r).pDestinationOSC ≠ none) (cpu : Fin n) :
    (∃ l m', Step strategy program m l m' ∧ l.cpu = some cpu) ∨ ∃ cpu', WaitsFor m cpu cpu' := by
  cases hcontrol : m.control cpu with
  | dispatching => exact .inl ⟨_, _, .releaseStack hcontrol, rfl⟩
  | waiting => exact .inl ⟨_, _, .getEvent hcontrol, rfl⟩
  | searching queues =>
    cases queues with
    | nil => exact .inl ⟨_, _, .noEvent hcontrol, rfl⟩
    | cons q rest =>
      by_cases hfree : m.Unlocked q
      · exact .inl ⟨_, _, .lockQueue hcontrol hfree, rfl⟩
      · obtain ⟨cpu', hheld⟩ := not_forall.mp hfree
        exact .inr ⟨cpu', q, rest, hcontrol, not_not.mp hheld⟩
  | scanning q retEl rest =>
    cases retEl with
    | none => exact .inl ⟨_, _, .unlockQueue hcontrol, rfl⟩
    | some t => exact .inl (h.exists_scan_step hdestination hcontrol)
  | dequeued t =>
    obtain ⟨sp, stackPool, hcall, -⟩ := h.provideStack hcontrol
    exact .inl ⟨_, _, .getFreeStack hcontrol hcall, rfl⟩
  | requeueing t => exact (h.agrees hcontrol).elim
  | returned task => exact .inl ⟨_, _, .activate hcontrol, rfl⟩
  | executing =>
    obtain ⟨t, ht⟩ := Option.ne_none_iff_exists'.mp (show m.pActiveEventTask cpu ≠ none from
      h.agrees hcontrol)
    exact .inl ⟨_, _, .eventTaskFinished hcontrol ht, rfl⟩
  | errorLoop => exact (h.agrees hcontrol).elim

/-- Who holds the lock of a queue can go on. -/
theorem Good.exists_step_of_heldLock (h : Good strategy program m lists)
    (hdestination : ∀ r, (program.trigger r).pDestinationOSC ≠ none)
    (hheld : (m.control cpu).heldLock = some q) :
    ∃ l m', Step strategy program m l m' ∧ l.cpu = some cpu := by
  refine (h.exists_step hdestination cpu).resolve_right ?_
  rintro ⟨cpu', q', rest, hcontrol, -⟩
  rw [hcontrol] at hheld
  cases hheld

/-! ## Scans -/

/-- The CPU scans the queue and has come past so many of its tasks. -/
def Scans (m : State n E R T Q) (lists : Q → List T) (cpu : Fin n) (q : Q) (passed : Nat) : Prop :=
  ∃ o rest xs ys, m.control cpu = .scanning q o rest ∧ lists q = xs ++ ys ∧ o = ys.head? ∧
    passed ≤ xs.length

/-- A scan goes past a task, or it ends. -/
theorem Scans.step {passed : Nat} (h : Scans m lists cpu q passed)
    (hgood : Good strategy program m lists) (hstep : Step strategy program m l m')
    (hmoved : Moved strategy program m lists lists' l) (hunlock : l ≠ .unlockQueue cpu)
    (hlocked : ∀ t r, l ≠ .locked cpu q t r) :
    lists' q = lists q ∧
      Scans m' lists' cpu q (passed + if l.cpu = some cpu then 1 else 0) := by
  obtain ⟨o, rest, xs, ys, hcontrol, hsplit, hhead, hpassed⟩ := h
  have hother : ∀ {q' t r}, l ≠ .locked cpu q' t r := by
    rintro q' t r rfl
    cases hstep with
    | locked hscan =>
      rw [hcontrol] at hscan
      cases hscan
      exact hlocked t r rfl
  have hlists : lists' q = lists q := hgood.scanned_eq hstep hmoved hcontrol fun _ _ _ => hother
  refine ⟨hlists, ?_⟩
  by_cases hcpu : l.cpu = some cpu
  · rw [if_pos hcpu]
    cases hstep with
    | enqueueEvent => cases hcpu
    | @refused _ q' t rest' o' hscan hcall hnext =>
      cases hcpu
      rw [hcontrol] at hscan
      cases hscan
      obtain ⟨zs, rfl⟩ := List.head?_eq_some_iff.mp hhead.symm
      have hrep := hgood.lined.family.rep q
      have htriggered : ∀ u ∈ lists q, (m.trigger program u).isSome := fun u hu =>
        hgood.lined.triggered hu
      rw [hsplit] at hrep htriggered
      obtain ⟨vs, ws, rfl, hnext'⟩ := strategy.next_spec hrep htriggered
      cases hnext.symm.trans hnext'
      refine ⟨_, rest, xs ++ t :: vs, ws, State.goto_control_self, by simp [hlists, hsplit], rfl, ?_⟩
      simp only [List.length_append, List.length_cons]
      omega
    | locked =>
      cases hcpu
      exact absurd rfl hother
    | unlockQueue =>
      cases hcpu
      exact absurd rfl hunlock
    | releaseStack hc | getEvent hc | lockQueue hc | noEvent hc | getFreeStack hc | noStack hc
    | requeue hc | activate hc | eventTaskFinished hc =>
      cases hcpu
      simp [hcontrol] at hc
  · rw [if_neg hcpu, Nat.add_zero]
    exact ⟨o, rest, xs, ys, (hgood.control_of_ne hstep hcpu).trans hcontrol, hlists ▸ hsplit, hhead,
      hpassed⟩

theorem Scans.run {passed : Nat} (h : Scans m lists cpu q passed)
    (hgood : Good strategy program m lists) (hrun : Run (Step strategy program) m ls m')
    (hunlock : .unlockQueue cpu ∉ ls) (hlocked : ∀ t r, .locked cpu q t r ∉ ls) :
    ∃ lists', Good strategy program m' lists' ∧ lists' q = lists q ∧
      Scans m' lists' cpu q (passed + ls.countP (·.cpu = some cpu)) := by
  induction hrun with
  | nil => exact ⟨lists, hgood, rfl, h⟩
  | @snoc ls m₁ l m₂ hrun hstep ih =>
    simp only [List.mem_append, List.mem_singleton, not_or] at hunlock hlocked
    obtain ⟨lists₁, hgood₁, hlists₁, hscans₁⟩ := ih hunlock.1 fun t r => (hlocked t r).1
    obtain ⟨lists₂, hgood₂, hmoved⟩ := hgood₁.step hstep
    obtain ⟨hlists₂, hscans₂⟩ := hscans₁.step hgood₁ hstep hmoved (Ne.symm hunlock.2)
      fun t r => Ne.symm (hlocked t r).2
    refine ⟨lists₂, hgood₂, hlists₂.trans hlists₁, ?_⟩
    rw [List.countP_append, List.countP_singleton, ← Nat.add_assoc]
    simpa using hscans₂

/-- Over every run: a CPU of the dispatch cycle can go on, or it waits for the lock of a queue whose
holder can go on. The holder has given the lock back, with a task or without, before it makes more
steps than the queue had tasks when it took the lock. -/
theorem dispatcher_progress (hdestination : ∀ r, (program.trigger r).pDestinationOSC ≠ none)
    (hrun : Run (Step strategy program) State.initial ls m) :
    (∀ cpu, (∃ l m', Step strategy program m l m' ∧ l.cpu = some cpu) ∨
      ∃ cpu', WaitsFor m cpu cpu' ∧ ∃ l m', Step strategy program m l m' ∧ l.cpu = some cpu') ∧
      ∀ cpu q rest m₁, m.control cpu = .searching (q :: rest) →
        Step strategy program m (.lockQueue cpu) m₁ →
        ∀ ls' m', Run (Step strategy program) m₁ ls' m' → .unlockQueue cpu ∉ ls' →
          (∀ t r, .locked cpu q t r ∉ ls') →
          ls'.countP (·.cpu = some cpu) ≤ (m.queues q).pSize := by
  obtain ⟨lists, hgood⟩ := Good.run hrun
  refine ⟨fun cpu => ?_, fun cpu q rest m₁ hcontrol hlock ls' m' hrun' hunlock hlocked => ?_⟩
  · refine (hgood.exists_step hdestination cpu).imp_right ?_
    rintro ⟨cpu', q, rest, hcontrol, hheld⟩
    exact ⟨cpu', ⟨q, rest, hcontrol, hheld⟩, hgood.exists_step_of_heldLock hdestination hheld⟩
  · obtain ⟨lists₁, hgood₁, hmoved⟩ := hgood.step hlock
    obtain rfl : lists₁ = lists := hmoved
    have hscans : Scans m₁ lists₁ cpu q 0 := by
      cases hlock with
      | lockQueue hcontrol' =>
        rw [hcontrol] at hcontrol'
        cases hcontrol'
        exact ⟨_, rest, [], lists₁ q, State.goto_control_self, rfl,
          (hgood.lined.family.rep q).head, Nat.zero_le _⟩
    obtain ⟨lists', -, hlists', o, rest', xs, ys, -, hsplit, -, hpassed⟩ :=
      hscans.run hgood₁ hrun' hunlock hlocked
    rw [(hgood.lined.family.rep q).size, ← hlists', hsplit, List.length_append]
    omega

/-- A CPU locks the queue of the only task. -/
theorem dispatcher_progress_oneTrigger : ∃ m : State 2 Bool Unit (Fin 2) (Fin 3),
    Run (Step multiQueuePriorityStrategy oneTrigger) State.initial
      [.enqueueEvent 0 true (), .releaseStack 0, .getEvent 0, .lockQueue 0, .unlockQueue 0] m ∧
      m.control 0 = .searching [2] ∧ (m.queues 2).pSize = 1 ∧
      ∀ m₁, Step multiQueuePriorityStrategy oneTrigger m (.lockQueue 0) m₁ →
        ∀ ls' m', Run (Step multiQueuePriorityStrategy oneTrigger) m₁ ls' m' →
          .unlockQueue 0 ∉ ls' → (∀ t r, .locked 0 2 t r ∉ ls') →
          ls'.countP (·.cpu = some 0) ≤ 1 := by
  have hafter : (([.enqueueEvent 0 true (), .releaseStack 0, .getEvent 0, .lockQueue 0,
      .unlockQueue 0] : List (Label 2 Bool Unit (Fin 2) (Fin 3))).foldlM
        (State.after multiQueuePriorityStrategy oneTrigger) State.initial).any
          fun m => m.control 0 = .searching [2] ∧ (m.queues 2).pSize = 1 := by decide +kernel
  obtain ⟨m, hm, hfacts⟩ := (Option.any_eq_true _ _).mp hafter
  obtain ⟨hcontrol, hsize⟩ := of_decide_eq_true hfacts
  have hrun := run_of_afterAll hm
  refine ⟨m, hrun, hcontrol, hsize, fun m₁ hlock ls' m' hrun' hunlock hlocked => ?_⟩
  obtain ⟨-, hbounded⟩ := dispatcher_progress (fun _ => by simp [oneTrigger]) hrun
  exact (hbounded 0 2 [] m₁ hcontrol hlock ls' m' hrun' hunlock hlocked).trans_eq hsize

end Dispatcher
end CyPhOS
