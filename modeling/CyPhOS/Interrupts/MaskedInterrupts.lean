import CyPhOS.Interrupts.InterruptDispatcher

/-! # Masked interrupts have a task

An interrupt that the handler has disabled is enabled by the trigger that is registered for it. If
the dispatcher finds no trigger or no free task, nobody enables the interrupt any more.
`masked_has_task` says that in runs where this does not happen a disabled interrupt has a task whose
trigger is still to run.

The runs interleave the handlers of all CPUs; `exception_run` says that an invocation of a handler is
a run of their steps.
-/

namespace CyPhOS

open Transition

variable {n m : Nat} {O S R : Type}

/-! ## The invariant -/

namespace InterruptSystem

section
variable {c : Configuration O S R} {s s' : InterruptSystem n m S R} {place : Task → Place n}
  {nr : Fin m} {cpu : Fin n} {t : Task}

/-- Every masked interrupt has a task that is still to run, unless a handler has yet to dispatch
it. -/
def Armed (s : InterruptSystem n m S R) : Prop :=
  ∀ nr, s.lines nr = .masked → (∀ cpu, s.handling cpu ≠ some nr) → ∃ t, s.Outstanding nr t

structure Inv (c : Configuration O S R) (s : InterruptSystem n m S R) (place : Task → Place n) :
    Prop where
  works : s.kernel.Works c place
  begins : ∀ nr, BeginsWith (s.kernel.pInterrupts nr) (s.registered nr)
  armed : s.Armed

theorem outstanding_iff (h : s.kernel.Works c place) : s.Outstanding nr t ↔
    ∃ job, s.kernel.tasks.jobs place t = some job ∧ job.event = .pInterrupts nr ∧
      job.trigger ∈ s.registered nr ∧
      ∀ cpu, s.kernel.tasks.pActiveEventTask cpu = some t → s.ran cpu = false := by
  constructor
  · rintro ⟨hbusy, hevent, ⟨r, hr, htrigger⟩, hran⟩
    obtain ⟨job, hjob⟩ := (h.busy_iff t).mp hbusy
    obtain ⟨-, hevent', htrigger', -⟩ := (h.jobs_iff t job).mp hjob
    refine ⟨job, hjob, Option.some.inj (hevent'.symm.trans hevent), ?_, hran⟩
    rwa [Option.some.inj (htrigger'.symm.trans htrigger)]
  · rintro ⟨job, hjob, hevent, hmem, hran⟩
    obtain ⟨hbusy, hevent', htrigger, -⟩ := (h.jobs_iff t job).mp hjob
    exact ⟨hbusy, hevent ▸ hevent', ⟨job.trigger, hmem, htrigger⟩, hran⟩

/-- The dispatch of an interrupt finds a trigger and a free task, if nothing else will enable the
interrupt. -/
def FindsTask (s : InterruptSystem n m S R) : InterruptOp n m S R → Prop
  | .dispatchInterrupt cpu nr => s.lines nr = .masked → (∀ cpu' ≠ cpu, s.handling cpu' ≠ some nr) →
      (∃ t, s.Outstanding nr t) ∨
        s.registered nr ≠ [] ∧ (s.kernel.tasks.queues .pInterruptTaskPoolQueue).pSize ≠ 0
  | _ => True

section
variable [DecidableEq O] [DecidableEq S] [DecidableEq R] [Fintype R]

/-- A call that is none of the dispatcher's ends no task that is still to run. -/
theorem Inv.kernel {op : KernelOp n m S R} {k : Kernel n m S R} (h : s.Inv c place)
    (hop : op.SparesInterrupts)
    (hran : ∀ cpu returned, op = .eventTaskFinished cpu returned → s.ran cpu = true)
    (hcall : KernelStep c s.kernel op k) :
    ∃ place', Inv c { s with kernel := k, ran := s.ranAfter op } place' := by
  obtain ⟨place', h', hjobs, hact⟩ := h.works.proceeds hcall
  refine ⟨place', h', ?_, fun nr hmasked hhandled => ?_⟩
  · rw [show k.pInterrupts = s.kernel.pInterrupts from
      Kernel.KernelStep.pInterrupts h.works hcall hop]
    exact h.begins
  · obtain ⟨t, ht⟩ := h.armed nr hmasked hhandled
    obtain ⟨job, hjob, hevent, hmem, hwait⟩ := (outstanding_iff h.works).mp ht
    refine ⟨t, (outstanding_iff h').mpr ⟨job, ?_, hevent, hmem, fun cpu hcpu => ?_⟩⟩
    · rcases hjobs t job hjob with hjob' | ⟨cpu, returned, rfl, hcpu⟩
      · exact hjob'
      · -- the task that ends has run
        have hdone := hran cpu returned rfl
        rw [hwait cpu hcpu] at hdone
        cases hdone
    · rcases hact cpu t hcpu with hcpu' | rfl
      · have hfalse := hwait cpu hcpu'
        show s.ranAfter op cpu = false
        unfold ranAfter
        split
        · rw [Function.update_apply, hfalse, ite_self]
        · exact hfalse
      · exact Function.update_self ..

omit [DecidableEq O] in
theorem Inv.registerEvent {trigger : Option R} {k : Kernel n m S R} (h : s.Inv c place)
    (hcall : s.kernel.registerEvent nr trigger = .ok k) :
    Inv c { s with
      kernel := k
      registered := Function.update s.registered nr (s.registered nr ++ trigger.toList) } place := by
  have hmem : ∀ {nr'} {r : R}, r ∈ s.registered nr' →
      r ∈ Function.update s.registered nr (s.registered nr ++ trigger.toList) nr' := by
    intro nr' r hr
    rcases eq_or_ne nr' nr with rfl | hne
    · rw [Function.update_self]
      exact List.mem_append_left _ hr
    · rwa [Function.update_of_ne hne]
  cases trigger with
  | none =>
    obtain rfl := Except.ok.inj hcall
    rw [Option.toList_none, List.append_nil, Function.update_eq_self]
    exact h
  | some trigger =>
    obtain ⟨⟨links, queue⟩, henqueue, hk⟩ := Exec.bind_eq_ok.mp hcall
    obtain rfl := Except.ok.inj hk
    refine ⟨h.works.setSubscribers, fun nr' => ?_, fun nr' hmasked hhandled => ?_⟩
    · rcases eq_or_ne nr' nr with rfl | hne
      · have hbegins := (h.begins nr').enqueue henqueue
        simpa [Kernel.setSubscribers] using hbegins
      · simpa [Kernel.setSubscribers, hne] using h.begins nr'
    · obtain ⟨t, hbusy, hevent, ⟨r, hr, htrigger⟩, hran⟩ := h.armed nr' hmasked hhandled
      exact ⟨t, hbusy, hevent, ⟨r, hmem hr, htrigger⟩, hran⟩

omit [DecidableEq O] [DecidableEq S] [DecidableEq R] [Fintype R] in
/-- A step of the controller: what it leaves masked was so before, and still has a task to wait
for. -/
theorem Inv.relabel {lines : Fin m → Line} {handling : Fin n → Option (Fin m)} {ran : Fin n → Bool}
    (h : s.Inv c place) (harmed : ∀ nr, lines nr = .masked → (∀ cpu, handling cpu ≠ some nr) →
      s.lines nr = .masked ∧ (∀ cpu, s.handling cpu ≠ some nr) ∧ ∀ t, s.Outstanding nr t →
        ∀ cpu, s.kernel.tasks.pActiveEventTask cpu = some t → ran cpu = false) :
    Inv c { s with lines, handling, ran } place := by
  refine ⟨h.works, h.begins, fun nr hmasked hhandled => ?_⟩
  obtain ⟨hmasked', hhandled', hran⟩ := harmed nr hmasked hhandled
  obtain ⟨t, ht⟩ := h.armed nr hmasked' hhandled'
  exact ⟨t, ht.1, ht.2.1, ht.2.2.1, hran t ht⟩

omit [DecidableEq O] [DecidableEq S] [DecidableEq R] [Fintype R] in
theorem Inv.enableInterrupt (h : s.Inv c place) : (s.enableInterrupt nr).Inv c place := by
  refine h.relabel fun nr' hmasked hhandled => ⟨?_, hhandled, fun t ht => ht.2.2.2⟩
  rw [Function.update_apply] at hmasked
  split at hmasked
  · cases hmasked
  · exact hmasked

omit [DecidableEq O] [DecidableEq S] [DecidableEq R] [Fintype R] in
theorem Inv.disableInterrupt (h : s.Inv c place) : (s.disableInterrupt nr).Inv c place := by
  refine h.relabel fun nr' hmasked hhandled => ⟨?_, hhandled, fun t ht => ht.2.2.2⟩
  rw [Function.update_apply] at hmasked
  split at hmasked
  · next heq =>
    rw [heq]
    by_contra hne
    rw [if_neg hne] at hmasked
    cases hmasked
  · exact hmasked

omit [DecidableEq O] [DecidableEq S] [DecidableEq R] [Fintype R] in
/-- A task that runs enables the interrupt that it was outstanding for. -/
theorem Inv.execute {enables : List (Fin m)} (h : s.Inv c place)
    (henables : ∀ t nr r, s.kernel.tasks.pActiveEventTask cpu = some t →
      (s.kernel.tasks.eventTask t).event = some (.pInterrupts nr) →
      (s.kernel.tasks.eventTask t).trigger = some r → r ∈ s.registered nr → nr ∈ enables) :
    Inv c { s with
      lines := fun nr => if nr ∈ enables then .enabled else s.lines nr
      ran := Function.update s.ran cpu true } place := by
  refine h.relabel fun nr hmasked hhandled => ?_
  split at hmasked
  · cases hmasked
  · next hnot =>
    refine ⟨hmasked, hhandled, fun t ht cpu' hcpu' => ?_⟩
    obtain ⟨-, hevent, ⟨r, hr, htrigger⟩, hran⟩ := ht
    have hne : cpu' ≠ cpu := by
      rintro rfl
      exact hnot (henables t nr r hcpu' hevent htrigger hr)
    rw [Function.update_of_ne hne]
    exact hran cpu' hcpu'

omit [DecidableEq O] [DecidableEq S] [DecidableEq R] [Fintype R] in
theorem Inv.acknowledge (h : s.Inv c place) (hidle : s.handling cpu = none) :
    Inv c { s.mask nr with handling := Function.update s.handling cpu (some nr) } place := by
  refine h.relabel fun nr' hmasked hhandled => ⟨?_, fun cpu' hcpu' => ?_, fun t ht => ht.2.2.2⟩
  · rw [mask_lines, Function.update_apply] at hmasked
    split at hmasked
    · next heq => exact (hhandled cpu (by rw [heq, Function.update_self])).elim
    · exact hmasked
  · refine hhandled cpu' ?_
    rw [Function.update_of_ne, hcpu']
    rintro rfl
    rw [hidle] at hcpu'
    cases hcpu'

omit [DecidableEq O] [DecidableEq S] [DecidableEq R] in
/-- After the dispatch of an interrupt all masked interrupts have tasks exactly if it has found
one. -/
theorem Inv.dispatchInterrupt {k : Kernel n m S R} (h : s.Inv c place)
    (hhandling : s.handling cpu = some nr) (hcall : s.kernel.dispatchInterrupt c nr = .ok k) :
    let s' : InterruptSystem n m S R :=
      { s with kernel := k, handling := Function.update s.handling cpu none }
    (∃ place', s'.kernel.Works c place') ∧
      (∀ nr, BeginsWith (s'.kernel.pInterrupts nr) (s'.registered nr)) ∧
      (s'.Armed ↔ s.FindsTask (.dispatchInterrupt cpu nr)) := by
  intro s'
  obtain ⟨place', h', heq, hact, hadds, hnothing, -, hnew⟩ :=
    h.works.dispatchInterrupt (h.begins nr) hcall
  have hinterrupts : k.pInterrupts = s.kernel.pInterrupts := by rw [heq]
  have hstill : ∀ {nr' t}, s.Outstanding nr' t → s'.Outstanding nr' t := by
    intro nr' t ht
    obtain ⟨job, hjob, hevent, hmem, hran⟩ := (outstanding_iff h.works).mp ht
    exact (outstanding_iff h').mpr ⟨job, hadds.keeps hjob, hevent, hmem, hact ▸ hran⟩
  have hhandled : ∀ {nr'}, (∀ cpu', s'.handling cpu' ≠ some nr') ↔
      ∀ cpu' ≠ cpu, s.handling cpu' ≠ some nr' :=
    Function.forall_update_iff s.handling (p := fun _ o => o ≠ some _) |>.trans (by simp)
  refine ⟨⟨place', h'⟩, hinterrupts ▸ h.begins, fun harmed hmasked hothers => ?_,
    fun hfinds nr' hmasked hothers => ?_⟩
  · -- a task after the call was there before, or the call has created it
    obtain ⟨t, ht⟩ := harmed nr hmasked (hhandled.mpr hothers)
    by_contra hnot
    rw [not_or, not_and_or, not_not, not_not] at hnot
    obtain ⟨job, hjob, hevent, hmem, hran⟩ := (outstanding_iff h').mp ht
    rw [hnothing hnot.2] at hjob
    exact hnot.1 ⟨t, (outstanding_iff h.works).mpr ⟨job, hjob, hevent, hmem, hact ▸ hran⟩⟩
  · rw [hhandled] at hothers
    by_cases hnr : nr' = nr
    · subst hnr
      rcases hfinds hmasked hothers with ⟨t, ht⟩ | ⟨hregistered, hfree⟩
      · exact ⟨t, hstill ht⟩
      · obtain ⟨r, l, hl⟩ := List.exists_cons_of_ne_nil hregistered
        obtain ⟨t, hjob, hidle⟩ := hnew r l hl hfree
        refine ⟨t, (outstanding_iff h').mpr ⟨_, hjob, rfl, ?_, fun cpu' hcpu' => ?_⟩⟩
        · rw [show s'.registered = s.registered from rfl, hl]
          exact List.mem_cons_self
        · exact (hidle cpu' hcpu').elim
    · obtain ⟨t, ht⟩ := h.armed nr' hmasked fun cpu' hcpu' => by
        rcases eq_or_ne cpu' cpu with rfl | hne
        · exact hnr (Option.some.inj (hcpu'.symm.trans hhandling))
        · exact hothers cpu' hne hcpu'
      exact ⟨t, hstill ht⟩

/-- Every step keeps masked interrupts armed, if the dispatch of an interrupt finds a task. -/
theorem Inv.step {op : InterruptOp n m S R} (h : s.Inv c place) (hstep : InterruptStep c s op s')
    (hfinds : s.FindsTask op) : ∃ place', s'.Inv c place' := by
  cases hstep with
  | kernel hop hran hcall => exact h.kernel hop hran hcall
  | registerEvent hcall => exact ⟨place, h.registerEvent hcall⟩
  | enableInterrupt => exact ⟨place, h.enableInterrupt⟩
  | disableInterrupt => exact ⟨place, h.disableInterrupt⟩
  | execute hphase hran henables => exact ⟨place, h.execute henables⟩
  | acknowledge hidle => exact ⟨place, h.acknowledge hidle⟩
  | dispatchInterrupt hhandling hcall =>
    obtain ⟨⟨place', h'⟩, hbegins, harmed⟩ := h.dispatchInterrupt hhandling hcall
    exact ⟨place', h', hbegins, harmed.mpr hfinds⟩

/-! ## Runs -/

/-- An interrupt is read and dispatched by a handler. The dispatch finds a task if a trigger is
registered and a task is free. -/
theorem handle_run {k : Kernel n m S R} (hidle : s.handling cpu = none)
    (hcall : s.kernel.dispatchInterrupt c nr = .ok k) :
    Run (fun a op a' => InterruptStep c a op a' ∧ (s.registered nr ≠ [] →
        (s.kernel.tasks.queues .pInterruptTaskPoolQueue).pSize ≠ 0 → a.FindsTask op)) s
      [.acknowledge cpu nr, .dispatchInterrupt cpu nr] { s.mask nr with kernel := k } := by
  have hdispatch : InterruptStep c
      { s.mask nr with handling := Function.update s.handling cpu (some nr) }
      (.dispatchInterrupt cpu nr) _ := .dispatchInterrupt (Function.update_self ..) hcall
  rw [Function.update_idem, ← hidle, Function.update_eq_self] at hdispatch
  exact (Run.single ⟨.acknowledge hidle, fun _ _ => trivial⟩).snoc
    ⟨hdispatch, fun hregistered hfree _ _ => .inr ⟨hregistered, hfree⟩⟩

/-- An invocation of the handler on a CPU is a run of its steps there. -/
theorem exception_run {reads : List Nat} (hidle : s.handling cpu = none)
    (hcall : exception_irq_interrupt_c c reads s = .ok s') :
    ∃ ls, (∀ op ∈ ls, ∃ nr, op = .acknowledge cpu nr ∨ op = .dispatchInterrupt cpu nr) ∧
      Run (InterruptStep c) s ls s' := by
  induction reads generalizing s with
  | nil => cases hcall
  | cons gicIAR reads ih =>
    rw [exception_irq_interrupt_c] at hcall
    split_ifs at hcall with hspurious hnr
    · obtain rfl := Except.ok.inj hcall
      exact ⟨[], by simp, .nil⟩
    · obtain ⟨kernel, hdispatch, hcall⟩ := Exec.bind_eq_ok.mp hcall
      have hfirst := (handle_run hidle hdispatch).mono fun h => h.1
      have hidle' : ({ s.mask ⟨_, hnr⟩ with kernel } : InterruptSystem n m S R).handling cpu = none :=
        hidle
      obtain ⟨ls, hls, hrun⟩ := ih hidle' hcall
      refine ⟨_, fun op hop => ?_, hfirst.append hrun⟩
      rcases List.mem_append.mp hop with hop | hop
      · exact ⟨_, by simpa using hop⟩
      · exact hls op hop
    · exact ih hidle hcall

/-- The controller starts with all interrupts disabled. -/
def boot (mTimerInterval : Nat) : Exec (InterruptSystem n m S R) := do
  let kernel ← Kernel.boot mTimerInterval
  pure {
    kernel
    lines := fun _ => .disabled
    handling := fun _ => none
    ran := fun _ => false
    registered := fun _ => [] }

omit [DecidableEq O] [DecidableEq S] [DecidableEq R] [Fintype R] in
theorem boot_spec (c : Configuration O S R) (mTimerInterval : Nat) :
    ∃ s : InterruptSystem n m S R, boot mTimerInterval = .ok s ∧
      s.Inv c (fun t => .queue t.home) ∧
      (s.kernel.tasks.queues .pInterruptTaskPoolQueue).pSize = cInterruptTaskPoolSize ∧
      (∀ cpu, s.handling cpu = none) ∧ ∀ nr, s.registered nr = [] := by
  obtain ⟨kernel, hboot, hworks, -, hsize, -, hnew⟩ := Kernel.boot_spec c mTimerInterval
  refine ⟨_, Exec.bind_eq_ok.mpr ⟨kernel, hboot, rfl⟩, ⟨hworks, fun nr => hnew (.pInterrupts nr),
    fun nr hmasked => ?_⟩, hsize, fun _ => rfl, fun _ => rfl⟩
  cases hmasked

variable {s₀ : InterruptSystem n m S R} {mTimerInterval : Nat} {ls : List (InterruptOp n m S R)}

theorem inv_run (hboot : boot mTimerInterval = .ok s₀)
    (hrun : Run (fun s op s' => InterruptStep c s op s' ∧ s.FindsTask op) s₀ ls s) :
    ∃ place, s.Inv c place := by
  obtain ⟨s₁, hok, hinv, -⟩ := boot_spec (n := n) (m := m) c mTimerInterval
  obtain rfl := Except.ok.inj (hok.symm.trans hboot)
  refine hrun.invariant (motive := fun s => ∃ place, s.Inv c place) ⟨_, hinv⟩ ?_
  intro s op s' ⟨place, h⟩ ⟨hstep, hfinds⟩
  exact h.step hstep hfinds

/-- If the dispatch of an interrupt always finds a trigger and a free task, over every interleaving
of interrupts on all CPUs with the calls of the kernel, then every masked interrupt has a task that
is still to run. The first dispatch that finds none leaves an interrupt masked without a task. -/
theorem masked_has_task (hboot : boot mTimerInterval = .ok s₀)
    (hrun : Run (fun s op s' => InterruptStep c s op s' ∧ s.FindsTask op) s₀ ls s) :
    s.Armed ∧ ∀ cpu nr s', InterruptStep c s (.dispatchInterrupt cpu nr) s' →
      (s'.Armed ↔ s.FindsTask (.dispatchInterrupt cpu nr)) := by
  obtain ⟨place, h⟩ := inv_run hboot hrun
  refine ⟨h.armed, fun cpu nr s' hstep => ?_⟩
  cases hstep with
  | dispatchInterrupt hhandling hcall =>
    obtain ⟨-, -, harmed⟩ := h.dispatchInterrupt hhandling hcall
    exact harmed

end

end

/-! ## More interrupts than tasks -/

/-- Each interrupt has a component of its own. -/
def ports : Configuration (Fin m) Unit (Fin m) where
  trigger r := { pDestinationOSC := some r, pDeps := ⟨[none], DepArray.none_mem⟩, pPriority := 1 }
  pType _ := .dummyCallEvent
  pType_ne _ := dummyCallEvent_ne_timerEvent
  pDummyEvent := ()
  pDummyEvent_pType := rfl

/-- A driver enables the interrupt, the device raises it, and CPU 0 handles it. -/
def fires (nr : Fin m) : List (InterruptOp 1 m Unit (Fin m)) :=
  [.enableInterrupt nr, .acknowledge 0 nr, .dispatchInterrupt 0 nr]

section
variable {s : InterruptSystem 1 m Unit (Fin m)} {place : Task → Place 1} {nr : Fin m}
  {nrs : List (Fin m)}

theorem register_run (h : s.Inv ports place) (hnew : ∀ nr ∈ nrs, s.registered nr = [])
    (hnodup : nrs.Nodup) : ∃ s',
      Run (fun s op s' => InterruptStep ports s op s' ∧ s.FindsTask op) s
        (nrs.map fun nr => .registerEvent nr (some nr)) s' ∧
      s'.Inv ports place ∧ s'.kernel.tasks = s.kernel.tasks ∧ s'.handling = s.handling ∧
      ∀ nr, s'.registered nr = if nr ∈ nrs then [nr] else s.registered nr := by
  induction nrs generalizing s with
  | nil => exact ⟨s, .nil, h, rfl, rfl, by simp⟩
  | cons nr nrs ih =>
    obtain ⟨hnot, hnodup⟩ := List.nodup_cons.mp hnodup
    have hempty : s.kernel.pInterrupts nr = Queue.new := by
      have hbegins := h.begins nr
      rwa [hnew nr List.mem_cons_self] at hbegins
    obtain ⟨links, queue, hok, -⟩ :=
      (Queue.Rep.new s.kernel.timer.triggerLinks).enqueue (List.not_mem_nil (a := nr))
    have hcall : s.kernel.registerEvent nr (some nr) =
        .ok (s.kernel.setSubscribers (.pInterrupts nr) links queue) :=
      Exec.bind_eq_ok.mpr ⟨(links, queue), by rw [← hok, ← hempty]; rfl, rfl⟩
    have hrest : ∀ nr' ∈ nrs, Function.update s.registered nr
        (s.registered nr ++ (some nr).toList) nr' = [] := by
      intro nr' hmem
      have hne : nr' ≠ nr := fun heq => hnot (heq ▸ hmem)
      rw [Function.update_of_ne hne]
      exact hnew nr' (List.mem_cons_of_mem _ hmem)
    obtain ⟨s', hrun, h', htasks, hhandling, hregistered⟩ :=
      ih (h.registerEvent hcall) hrest hnodup
    refine ⟨s', run_cons_iff.mpr ⟨_, ⟨.registerEvent hcall, trivial⟩, hrun⟩, h', htasks, hhandling,
      fun nr' => ?_⟩
    rw [hregistered nr']
    by_cases hmem : nr' ∈ nrs
    · rw [if_pos hmem, if_pos (List.mem_cons_of_mem _ hmem)]
    · rcases eq_or_ne nr' nr with rfl | hne
      · simp [hmem, hnew]
      · simp [hmem, hne]

/-- The dispatch finds a task if a trigger is registered and a task is free. -/
theorem fires_step {k : Kernel 1 m Unit (Fin m)} (hidle : s.handling 0 = none)
    (hcall : s.kernel.dispatchInterrupt ports nr = .ok k) :
    Run (fun a op a' => InterruptStep ports a op a' ∧ (s.registered nr ≠ [] →
        (s.kernel.tasks.queues .pInterruptTaskPoolQueue).pSize ≠ 0 → a.FindsTask op)) s (fires nr)
      { (s.enableInterrupt nr).mask nr with kernel := k } := by
  have henable : InterruptStep ports s (.enableInterrupt nr) (s.enableInterrupt nr) :=
    .enableInterrupt
  exact run_cons_iff.mpr ⟨_, ⟨henable, fun _ _ => trivial⟩,
    handle_run (s := s.enableInterrupt nr) hidle hcall⟩

/-- Each of the interrupts takes at least one of the free tasks. -/
theorem fires_run (nrs : List (Fin m)) (hworks : s.kernel.Works ports place)
    (hbegins : ∀ nr, BeginsWith (s.kernel.pInterrupts nr) (s.registered nr))
    (hregistered : ∀ nr ∈ nrs, s.registered nr ≠ []) (hidle : s.handling 0 = none) : ∃ s' place',
      Run (InterruptStep ports) s (nrs.flatMap fires) s' ∧ s'.kernel.Works ports place' ∧
      (∀ nr, BeginsWith (s'.kernel.pInterrupts nr) (s'.registered nr)) ∧
      s'.registered = s.registered ∧ s'.handling = s.handling ∧
      (s'.kernel.tasks.queues .pInterruptTaskPoolQueue).pSize ≤
        (s.kernel.tasks.queues .pInterruptTaskPoolQueue).pSize - nrs.length ∧
      Adds (fun e => ∃ nr ∈ nrs, e = .pInterrupts nr) (s.kernel.tasks.jobs place)
        (s'.kernel.tasks.jobs place') := by
  induction nrs generalizing s place with
  | nil => exact ⟨s, place, .nil, hworks, hbegins, rfl, rfl, le_rfl, Adds.refl _⟩
  | cons nr nrs ih =>
    obtain ⟨k, hcall⟩ := hworks.dispatchInterrupt_ok nr
    obtain ⟨place₁, h₁, heq, -, hadds₁, -, hless, -⟩ :=
      hworks.dispatchInterrupt (hbegins nr) hcall
    have hbegins₁ : ∀ nr, BeginsWith (k.pInterrupts nr) (s.registered nr) := by
      rw [show k.pInterrupts = s.kernel.pInterrupts by rw [heq]]
      exact hbegins
    obtain ⟨s', place', hrun, h', hbegins', hregistered', hidle', hsize, hadds⟩ :=
      @ih { (s.enableInterrupt nr).mask nr with kernel := k } _ h₁ hbegins₁
        (fun nr' hmem => hregistered nr' (List.mem_cons_of_mem _ hmem)) hidle
    refine ⟨s', place', ((fires_step hidle hcall).mono fun h => h.1).append hrun, h', hbegins',
      hregistered', hidle', ?_,
      (hadds₁.mono fun e he => ⟨nr, List.mem_cons_self, he⟩).trans
        (hadds.mono fun e ⟨nr', hmem, he⟩ => ⟨nr', List.mem_cons_of_mem _ hmem, he⟩)⟩
    have hless' := hless (hregistered nr List.mem_cons_self)
    rw [List.length_cons]
    have hle : (s'.kernel.tasks.queues .pInterruptTaskPoolQueue).pSize ≤
        (k.tasks.queues .pInterruptTaskPoolQueue).pSize - nrs.length := hsize
    omega

end

theorem masked_has_task_ports : ∃ s₀ s : InterruptSystem 1 1 Unit (Fin 1), boot 1 = .ok s₀ ∧
    Run (fun s op s' => InterruptStep ports s op s' ∧ s.FindsTask op) s₀
      (.registerEvent 0 (some 0) :: fires 0) s ∧
    s.lines 0 = .masked ∧ s.Armed ∧
    ∀ cpu nr s', InterruptStep ports s (.dispatchInterrupt cpu nr) s' →
      (s'.Armed ↔ s.FindsTask (.dispatchInterrupt cpu nr)) := by
  obtain ⟨s₀, hboot, h₀, hsize, hidle, hnew⟩ := boot_spec (n := 1) (m := 1) ports 1
  obtain ⟨s₁, hrun₁, h₁, htasks, hhandling, hregistered⟩ :=
    register_run h₀ (fun nr _ => hnew nr) (List.nodup_singleton 0)
  obtain ⟨k, hcall⟩ := h₁.works.dispatchInterrupt_ok 0
  have hregistered₀ : s₁.registered 0 ≠ [] := by simp [hregistered 0]
  have hfree : (s₁.kernel.tasks.queues .pInterruptTaskPoolQueue).pSize ≠ 0 := by
    rw [htasks, hsize]
    decide
  have hfires : Run (fun s op s' => InterruptStep ports s op s' ∧ s.FindsTask op) s₁ (fires 0) _ :=
    (fires_step (hhandling ▸ hidle 0) hcall).mono fun h => ⟨h.1, h.2 hregistered₀ hfree⟩
  have hrun := hrun₁.append hfires
  have hmasked : ((s₁.enableInterrupt 0).mask 0).lines 0 = .masked := by simp
  exact ⟨s₀, _, hboot, hrun, hmasked, masked_has_task hboot hrun⟩

/-- A trigger is registered for each of nine interrupts, and all devices raise their interrupt
before a task has run. The last one finds no task, and stays masked. -/
theorem masked_without_task :
    ∃ s₀ s : InterruptSystem 1 (cInterruptTaskPoolSize + 1) Unit (Fin (cInterruptTaskPoolSize + 1)),
      boot 1 = .ok s₀ ∧
      Run (InterruptStep ports) s₀
        ((List.finRange _).map (fun nr => .registerEvent nr (some nr)) ++
          (List.finRange _).flatMap fires) s ∧
      (∀ nr, s.registered nr = [nr]) ∧ (∀ cpu, s.handling cpu = none) ∧
      s.lines (Fin.last _) = .masked ∧
      ∀ t, s.kernel.Busy t →
        (s.kernel.tasks.eventTask t).event ≠ some (.pInterrupts (Fin.last _)) := by
  obtain ⟨s₀, hboot, h₀, hsize, hidle, hnew⟩ :=
    boot_spec (n := 1) (m := cInterruptTaskPoolSize + 1) ports 1
  obtain ⟨s₁, hrun₁, h₁, htasks, hhandling, hregistered⟩ :=
    register_run h₀ (fun nr _ => hnew nr) (List.nodup_finRange _)
  have hmem : ∀ nr, s₁.registered nr = [nr] := fun nr => by simp [hregistered nr]
  obtain ⟨s₂, place₂, hrun₂, h₂, hbegins₂, hregistered₂, hidle₂, hsize₂, hadds⟩ :=
    fires_run ((List.finRange cInterruptTaskPoolSize).map Fin.castSucc) h₁.works h₁.begins
      (fun nr _ => by simp [hmem]) (hhandling ▸ hidle 0)
  rw [List.length_map, List.length_finRange, htasks, hsize] at hsize₂
  obtain ⟨k, hcall⟩ := h₂.dispatchInterrupt_ok (Fin.last _)
  obtain ⟨place₃, h₃, -, -, -, hnothing, -⟩ := h₂.dispatchInterrupt (hbegins₂ _) hcall
  have hidle₃ : ∀ cpu, s₂.handling cpu = none := by simp [hidle₂, hhandling, hidle]
  have hlast := (fires_step (hidle₃ 0) hcall).mono fun h => h.1
  have hmasked : ((s₂.enableInterrupt (Fin.last _)).mask (Fin.last _)).lines (Fin.last _) =
    .masked := by simp
  refine ⟨s₀, { (s₂.enableInterrupt (Fin.last _)).mask (Fin.last _) with kernel := k }, hboot, ?_,
    fun nr => (congrFun hregistered₂ nr).trans (hmem nr), hidle₃, hmasked,
    fun t hbusy hevent => ?_⟩
  · rw [List.finRange_succ_last (n := cInterruptTaskPoolSize), List.flatMap_append,
      List.flatMap_singleton, ← List.finRange_succ_last]
    exact (hrun₁.mono fun h => h.1).append (hrun₂.append hlast)
  · obtain ⟨job, hjob⟩ := (h₃.busy_iff t).mp hbusy
    obtain ⟨-, hevent', -⟩ := (h₃.jobs_iff t job).mp hjob
    obtain hlast' : job.event = .pInterrupts (Fin.last _) :=
      Option.some.inj (hevent'.symm.trans hevent)
    rw [hnothing (.inr (by omega))] at hjob
    rcases hadds t with heq | ⟨-, job', hjob', nr, hnr, hraised⟩
    · rw [heq, htasks] at hjob
      have hpending := (h₀.works.busy_iff_pending t).mp ((h₀.works.jobs_iff t job).mp hjob).1
      cases t <;> exact hpending
    · obtain rfl := Option.some.inj (hjob.symm.trans hjob')
      obtain ⟨i, -, rfl⟩ := List.mem_map.mp hnr
      exact Fin.castSucc_ne_last i (Event.pInterrupts.inj (hraised.symm.trans hlast'))

end InterruptSystem

end CyPhOS
