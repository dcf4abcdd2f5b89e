import CyPhOS.Kernel.Kernel

/-! # The interrupt dispatcher

The interrupt handler disables the interrupt it has read and raises the event that the dispatcher
keeps for it; the trigger that is registered for the interrupt enables it again when it runs.
Raising the event does nothing if no trigger is registered or no interrupt task is free.

The handler runs on every CPU, so disabling and dispatching are steps of their own
(`InterruptStep`).
-/

namespace CyPhOS

open Transition

variable {n m : Nat} {O S R : Type}

/-! ## The dispatcher -/

namespace Kernel

section
variable [DecidableEq S] [DecidableEq R] [Fintype R]

/-- The source also lets `nr` be the number of interrupts pass, one element behind the array. -/
def registerEvent (k : Kernel n m S R) (nr : Fin m) (trigger : Option R) : Exec (Kernel n m S R) :=
  match trigger with
  | none => pure k
  | some trigger => k.subscribeEvent (.pInterrupts nr) trigger

omit [DecidableEq S] [DecidableEq R] in
/-- `dispatchInterrupt`; the event has no effect without a subscriber. -/
def dispatchInterrupt (c : Configuration O S R) (k : Kernel n m S R) (nr : Fin m) :
    Exec (Kernel n m S R) :=
  if (k.pInterrupts nr).pSize = 0 then pure k
  else do
    let s ← k.machine.system.interruptEventTriggered c.program (.pInterrupts nr) 0
    pure { k with tasks := s.tasks }

end

end Kernel

/-- An interrupt at the controller. It is masked after the handler has disabled it, until it is
enabled. -/
inductive Line
  | enabled
  | disabled
  | masked
  deriving DecidableEq

/-- The kernel with the interrupt controller. `handling` is the interrupt that the handler on a CPU
has disabled and not yet dispatched, and `ran` says that the trigger function of the active task
has returned. `registered` records the triggers that have been registered. -/
structure InterruptSystem (n m : Nat) (S R : Type) where
  kernel : Kernel n m S R
  lines : Fin m → Line
  handling : Fin n → Option (Fin m)
  ran : Fin n → Bool
  registered : Fin m → List R

namespace InterruptSystem

/-! ## The handler -/

variable (s : InterruptSystem n m S R) (nr : Fin m)

def enableInterrupt : InterruptSystem n m S R :=
  { s with lines := Function.update s.lines nr .enabled }

/-- A driver disables an interrupt. One that the handler has disabled still counts as masked. -/
def disableInterrupt : InterruptSystem n m S R :=
  { s with
    lines := Function.update s.lines nr
      (if s.lines nr = .masked then .masked else .disabled) }

/-- The handler disables the interrupt it has read. -/
def mask : InterruptSystem n m S R :=
  { s with lines := Function.update s.lines nr .masked }

@[simp]
theorem mask_lines : (s.mask nr).lines = Function.update s.lines nr .masked :=
  rfl

end InterruptSystem

/-- The handler, on the values that it reads from the controller: each is an interrupt, until a
spurious one. The values after that are not read. -/
def exception_irq_interrupt_c [Fintype R] (c : Configuration O S R) :
    List Nat → InterruptSystem n m S R → Exec (InterruptSystem n m S R)
  | [], _ => .error .hang
  | gicIAR :: reads, s =>
    let intNo := gicIAR &&& 0x3ff
    if intNo = 1023 ∨ intNo = 1022 then pure s
    else if h : intNo < m then do
      let s := s.mask ⟨intNo, h⟩
      let kernel ← s.kernel.dispatchInterrupt c ⟨intNo, h⟩
      exception_irq_interrupt_c c reads { s with kernel }
    else exception_irq_interrupt_c c reads s

/-! ## Steps -/

/-- The call leaves raising the events of interrupts and subscribing to them to the dispatcher. -/
def KernelOp.SparesInterrupts : KernelOp n m S R → Prop
  | .scheduler (.eventTriggered event _) => ∀ nr, event ≠ .pInterrupts nr
  | .scheduler (.interruptEventTriggered event _) => ∀ nr, event ≠ .pInterrupts nr
  | .subscribeEvent event _ => ∀ nr, event ≠ .pInterrupts nr
  | .unsubscribeEvent event _ => ∀ nr, event ≠ .pInterrupts nr
  | _ => True

inductive InterruptOp (n m : Nat) (S R : Type)
  | kernel (op : KernelOp n m S R)
  | registerEvent (nr : Fin m) (trigger : Option R)
  | enableInterrupt (nr : Fin m)
  | disableInterrupt (nr : Fin m)
  | execute (cpu : Fin n) (enables : List (Fin m))
  | acknowledge (cpu : Fin n) (nr : Fin m)
  | dispatchInterrupt (cpu : Fin n) (nr : Fin m)

namespace InterruptSystem

/-- Which trigger functions have returned after a call. -/
def ranAfter (s : InterruptSystem n m S R) : KernelOp n m S R → Fin n → Bool
  | .scheduler (.dispatchEvent cpu) => Function.update s.ran cpu false
  | _ => s.ran

/-- The task is pending or active, of a trigger registered for the interrupt, and still to run. -/
def Outstanding (s : InterruptSystem n m S R) (nr : Fin m) (t : Task) : Prop :=
  s.kernel.Busy t ∧ (s.kernel.tasks.eventTask t).event = some (.pInterrupts nr) ∧
    (∃ r ∈ s.registered nr, (s.kernel.tasks.eventTask t).trigger = some r) ∧
    ∀ cpu, s.kernel.tasks.pActiveEventTask cpu = some t → s.ran cpu = false

end InterruptSystem

section
variable [DecidableEq O] [DecidableEq S] [DecidableEq R] [Fintype R] (c : Configuration O S R)

/-- One step of a CPU. A task ends after its trigger function has returned, and that of a trigger
registered for the interrupt of the task enables the interrupt, besides others. -/
inductive InterruptStep : InterruptSystem n m S R → InterruptOp n m S R →
    InterruptSystem n m S R → Prop
  | kernel {s op k} (hop : op.SparesInterrupts)
      (hran : ∀ cpu returned, op = .eventTaskFinished cpu returned → s.ran cpu = true)
      (hcall : KernelStep c s.kernel op k) :
      InterruptStep s (.kernel op) { s with kernel := k, ran := s.ranAfter op }
  | registerEvent {s nr trigger k} (hcall : s.kernel.registerEvent nr trigger = .ok k) :
      InterruptStep s (.registerEvent nr trigger) { s with
        kernel := k
        registered := Function.update s.registered nr (s.registered nr ++ trigger.toList) }
  | enableInterrupt {s nr} : InterruptStep s (.enableInterrupt nr) (s.enableInterrupt nr)
  | disableInterrupt {s nr} : InterruptStep s (.disableInterrupt nr) (s.disableInterrupt nr)
  | execute {s cpu enables} (hphase : s.kernel.phase cpu = .executing) (hran : s.ran cpu = false)
      (henables : ∀ t nr r, s.kernel.tasks.pActiveEventTask cpu = some t →
        (s.kernel.tasks.eventTask t).event = some (.pInterrupts nr) →
        (s.kernel.tasks.eventTask t).trigger = some r → r ∈ s.registered nr → nr ∈ enables) :
      InterruptStep s (.execute cpu enables) { s with
        lines := fun nr => if nr ∈ enables then .enabled else s.lines nr
        ran := Function.update s.ran cpu true }
  | acknowledge {s cpu nr} (hidle : s.handling cpu = none) :
      InterruptStep s (.acknowledge cpu nr)
        { s.mask nr with handling := Function.update s.handling cpu (some nr) }
  | dispatchInterrupt {s cpu nr k} (hhandling : s.handling cpu = some nr)
      (hcall : s.kernel.dispatchInterrupt c nr = .ok k) :
      InterruptStep s (.dispatchInterrupt cpu nr)
        { s with kernel := k, handling := Function.update s.handling cpu none }

end

/-! ## Registered triggers -/

/-- The queue begins with the first trigger that has been registered. -/
def BeginsWith (p : Queue R) : List R → Prop
  | [] => p = Queue.new
  | r :: _ => p.pHead = some r ∧ p.pSize ≠ 0

/-- Whatever the links are, enqueuing does not change where a queue begins. -/
theorem BeginsWith.enqueue [DecidableEq R] [Fintype R] {p p' : Queue R} {l : List R}
    {links links' : QueueElements R} {trigger : R} (h : BeginsWith p l)
    (hcall : p.enqueue links trigger = .ok (links', p')) : BeginsWith p' (l ++ [trigger]) := by
  cases l with
  | nil =>
    obtain rfl : p = Queue.new := h
    obtain ⟨k, q, hok, hrep, -⟩ :=
      (Queue.Rep.new links).enqueue (List.not_mem_nil (a := trigger))
    obtain ⟨rfl, rfl⟩ : k = links' ∧ q = p' := by simpa using hok.symm.trans hcall
    exact ⟨hrep.head, by simp [hrep.size]⟩
  | cons r l =>
    obtain ⟨hhead, hsize⟩ := h
    obtain ⟨o, -, hcall⟩ := Exec.bind_eq_ok.mp hcall
    cases o with
    | some found =>
      obtain ⟨-, rfl⟩ : links = links' ∧ p = p' := by simpa using hcall
      exact ⟨hhead, hsize⟩
    | none =>
      simp only [Queue.enqueueFast, hhead, reduceCtorEq, false_and, if_false] at hcall
      split at hcall
      · cases hcall
      · obtain ⟨-, rfl⟩ : _ ∧ _ = p' := by simpa using hcall
        exact ⟨rfl, Nat.succ_ne_zero _⟩

namespace Kernel

section
variable [DecidableEq R] [Fintype R] {c : Configuration O S R} {k k' : Kernel n m S R}
  {place : Task → Place n} {nr : Fin m}

/-- Calls that are none of the dispatcher's leave its table alone. -/
theorem KernelStep.pInterrupts [DecidableEq O] [DecidableEq S] {op : KernelOp n m S R}
    (h : k.Works c place) (hstep : KernelStep c k op k') (hop : op.SparesInterrupts) :
    k'.pInterrupts = k.pInterrupts := by
  cases hstep with
  | scheduler hkeeps hcall => rfl
  | @eventTaskFinished cpu returned k₁ hphase hcall =>
    obtain ⟨t, job, place', -, -, -, -, -, -, heffect⟩ := h.eventTaskFinished hphase hcall
    cases returned with
    | none => rw [show k₁ = { k with tasks := k₁.tasks } from heffect]
    | some e =>
      obtain ⟨timer, -, heq⟩ := heffect
      rw [heq]
  | @subscribeEvent event trigger k' hcall =>
    obtain ⟨⟨links, queue⟩, -, hk⟩ := Exec.bind_eq_ok.mp hcall
    obtain rfl := Except.ok.inj hk
    cases event with
    | pInterrupts nr => exact (hop nr rfl).elim
    | _ => rfl
  | @unsubscribeEvent event trigger k' hcall =>
    obtain ⟨⟨links, queue⟩, -, hk⟩ := Exec.bind_eq_ok.mp hcall
    obtain rfl := Except.ok.inj hk
    cases event with
    | pInterrupts nr => exact (hop nr rfl).elim
    | _ => rfl
  | timer hsets hcall => rfl
  | @handleTick oneshots periodics underflow t k' hcall hraise =>
    have htimer : { k with timer := t }.Works c place := h.congr rfl rfl rfl rfl
    obtain ⟨place', -, -, -, heq⟩ := htimer.raiseAll hraise
    rw [heq]

omit [DecidableEq R] in
/-- Tasks are handed to the walk from the head of the list on. There is no walk in an empty list. -/
theorem Works.dispatchInterrupt_walk (h : k.Works c place)
    (hcall : k.dispatchInterrupt c nr = .ok k') :
    ∃ news place', k'.Works c place' ∧ k' = { k with tasks := k'.tasks } ∧
      Handed c.program .pInterruptTaskPoolQueue (.pInterrupts nr) 0 (k.tasks, place) news
        (k'.tasks, place') ∧
      news.map Prod.snd = Queue.walk k.timer.triggerLinks
        (k.tasks.queues .pInterruptTaskPoolQueue).pSize
        ((k.pInterrupts nr).get k.timer.triggerLinks 0) := by
  rw [Kernel.dispatchInterrupt] at hcall
  split at hcall
  · next hsize =>
    obtain rfl := Except.ok.inj hcall
    have hget : (k.pInterrupts nr).get k.timer.triggerLinks 0 = none := by
      rw [Queue.get, if_pos hsize.le]
    refine ⟨[], place, h, rfl, Gives.handed (by simp) .nil, ?_⟩
    rw [hget, Queue.walk_none]
    rfl
  · obtain ⟨s, hs, hk⟩ := Exec.bind_eq_ok.mp hcall
    obtain rfl := Except.ok.inj hk
    obtain ⟨news, place', h', hrun, hwalk, heq⟩ := Working.raise h (by simp) False.elim hs
    exact ⟨news, place', h'.congr rfl (by rw [heq]; rfl) (by rw [heq]; rfl) rfl, rfl,
      Gives.handed (by simp) hrun, hwalk⟩

omit [DecidableEq R] in
/-- An interrupt is given tasks for its triggers, beginning with the first, as long as tasks are
free. -/
theorem Works.dispatchInterrupt_cons {r : R} {l : List R} (h : k.Works c place)
    (hbegins : BeginsWith (k.pInterrupts nr) (r :: l)) (hcall : k.dispatchInterrupt c nr = .ok k') :
    ∃ news place', k'.Works c place' ∧ k' = { k with tasks := k'.tasks } ∧
      Handed c.program .pInterruptTaskPoolQueue (.pInterrupts nr) 0 (k.tasks, place) news
        (k'.tasks, place') ∧
      news.map Prod.snd = Queue.walk k.timer.triggerLinks
        (k.tasks.queues .pInterruptTaskPoolQueue).pSize (some r) := by
  obtain ⟨hhead, hsize⟩ := hbegins
  have hget : (k.pInterrupts nr).get k.timer.triggerLinks 0 = some r := by
    rw [Queue.get, if_neg (by omega)]
    exact hhead
  rw [← hget]
  exact h.dispatchInterrupt_walk hcall

omit [DecidableEq R] in
/-- An interrupt is given a task for the first trigger that is registered, if a trigger is and a task
is free. Else nothing happens. -/
theorem Works.dispatchInterrupt {l : List R} (h : k.Works c place)
    (hbegins : BeginsWith (k.pInterrupts nr) l) (hcall : k.dispatchInterrupt c nr = .ok k') :
    ∃ place', k'.Works c place' ∧ k' = { k with tasks := k'.tasks } ∧
      k'.tasks.pActiveEventTask = k.tasks.pActiveEventTask ∧
      Adds (· = .pInterrupts nr) (k.tasks.jobs place) (k'.tasks.jobs place') ∧
      (l = [] ∨ (k.tasks.queues .pInterruptTaskPoolQueue).pSize = 0 →
        k'.tasks.jobs place' = k.tasks.jobs place) ∧
      (l ≠ [] → (k'.tasks.queues .pInterruptTaskPoolQueue).pSize ≤
        (k.tasks.queues .pInterruptTaskPoolQueue).pSize - 1) ∧
      ∀ r l', l = r :: l' → (k.tasks.queues .pInterruptTaskPoolQueue).pSize ≠ 0 → ∃ t,
        k'.tasks.jobs place' t = some ⟨.pInterrupts nr, r, 0⟩ ∧
          ∀ cpu, k'.tasks.pActiveEventTask cpu ≠ some t := by
  cases l with
  | nil =>
    have hnew : k.pInterrupts nr = Queue.new := hbegins
    obtain rfl : k = k' := by simpa [Kernel.dispatchInterrupt, hnew, Queue.new] using hcall
    exact ⟨place, h, rfl, rfl, Adds.refl _, fun _ => rfl, by simp, by simp⟩
  | cons r l =>
    obtain ⟨news, place', h', heq, hhanded, hwalk⟩ := h.dispatchInterrupt_cons hbegins hcall
    have htaken : (k'.tasks.queues .pInterruptTaskPoolQueue).pSize + news.length =
      (k.tasks.queues .pInterruptTaskPoolQueue).pSize := hhanded.size
    refine ⟨place', h', heq, hhanded.active, hhanded.adds (by simp), ?_, fun _ => ?_, ?_⟩
    · rintro (hl | hempty)
      · cases hl
      · obtain rfl : news = [] := List.length_eq_zero_iff.mp (by omega)
        funext t
        exact hhanded.jobs_of_notMem (by simp)
    · cases news with
      | nil =>
        have hempty : (k.tasks.queues .pInterruptTaskPoolQueue).pSize = 0 := by
          cases hsize : (k.tasks.queues .pInterruptTaskPoolQueue).pSize with
          | zero => rfl
          | succ size =>
            rw [hsize, Queue.walk] at hwalk
            cases hwalk
        omega
      | cons y news =>
        rw [List.length_cons] at htaken
        omega
    · intro r' l' hl hfree
      obtain ⟨rfl, -⟩ := List.cons.inj hl
      obtain ⟨size, hsize⟩ := Nat.exists_eq_succ_of_ne_zero hfree
      rw [hsize, Queue.walk] at hwalk
      cases news with
      | nil => cases hwalk
      | cons y news =>
        rw [List.map_cons] at hwalk
        have hy := hhanded.jobs_of_mem (List.mem_cons_self (a := y))
        rw [(List.cons.inj hwalk).1] at hy
        refine ⟨y.1, hy, fun cpu hcpu => ?_⟩
        have hplace : place' y.1 = _ := hhanded.place y (by simp)
        rw [(h'.placed.active cpu y.1).mp hcpu] at hplace
        cases hplace

omit [DecidableEq R] in
theorem Works.dispatchInterrupt_ok (h : k.Works c place) (nr : Fin m) :
    ∃ k', k.dispatchInterrupt c nr = .ok k' := by
  by_cases hsize : (k.pInterrupts nr).pSize = 0
  · exact ⟨k, if_pos hsize⟩
  · have hspec : (k.machine.system.interruptEventTriggered c.program (.pInterrupts nr) 0).Sat
        False _ := System.raise_spec h.placed h.hand (by simp) False.elim
    obtain ⟨s, hs, -⟩ := hspec.exists_eq_ok id
    exact ⟨_, (if_neg hsize).trans (Exec.bind_eq_ok.mpr ⟨s, hs, rfl⟩)⟩

end

end Kernel

end CyPhOS
