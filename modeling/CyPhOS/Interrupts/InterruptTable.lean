import CyPhOS.Interrupts.InterruptDispatcher
import CyPhOS.Kernel.Subscriptions

/-! # The table of the interrupt dispatcher

The dispatcher keeps one event for each of the `NR_INTERRUPTS` interrupts. A call with a number
behind them leaves the table: `registerEvent` checks its number against the size with `>`, and
`dispatchInterrupt` does not check it. Calls that stay in the table (`TableStep`) keep the event of
each number as the list of the triggers that have been registered for it, as long as triggers are
shared alone, and then an interrupt is given a task for each of them, in order (`dispatch_run`).
-/

namespace CyPhOS

open Transition

variable {n m : Nat} {O S R : Type}

namespace InterruptTable

/-! ## Calls with any number -/

/-- `pInterrupts[nr]`; `none` is an access behind the table. -/
def element (nr : Nat) : Option (Fin m) :=
  if h : nr < m then some ⟨nr, h⟩ else none

@[simp]
theorem element_val (nr : Fin m) : element nr.val = some nr :=
  dif_pos nr.isLt

theorem element_eq_some {nr : Nat} {i : Fin m} : element nr = some i ↔ nr = i := by
  constructor
  · intro h
    rw [element] at h
    split at h
    · cases h
      rfl
    · cases h
  · rintro rfl
    exact element_val i

theorem isSome_element {nr : Nat} : (element nr : Option (Fin m)).isSome ↔ nr < m := by
  rw [element]
  split
  · next h => simpa using h
  · next h => simpa using h

section
variable [DecidableEq R] [Fintype R]

def registerEvent [DecidableEq S] (k : Kernel n m S R) (nr : Nat) (trigger : Option R) :
    Option (Exec (Kernel n m S R)) :=
  if trigger = none ∨ nr > m then some (pure k)
  else (element nr).map fun nr => k.registerEvent nr trigger

omit [DecidableEq R] in
def dispatchInterrupt (c : Configuration O S R) (k : Kernel n m S R) (nr : Nat) :
    Option (Exec (Kernel n m S R)) :=
  (element nr).map (k.dispatchInterrupt c)

/-- The check lets one number behind the table pass. -/
theorem isSome_registerEvent [DecidableEq S] (k : Kernel n m S R) (nr : Nat) (trigger : Option R) :
    (registerEvent k nr trigger).isSome ↔ trigger = none ∨ nr ≠ m := by
  rw [registerEvent]
  split
  · next h => simpa using h.imp_right Nat.ne_of_gt
  · next h =>
    obtain ⟨htrigger, hle⟩ := not_or.mp h
    rw [Option.isSome_map, isSome_element]
    simp only [htrigger, false_or]
    omega

omit [DecidableEq R] in
theorem isSome_dispatchInterrupt (c : Configuration O S R) (k : Kernel n m S R) (nr : Nat) :
    (dispatchInterrupt c k nr).isSome ↔ nr < m := by
  rw [dispatchInterrupt, Option.isSome_map, isSome_element]

/-- Within the table a trigger is subscribed to the event of the number. -/
theorem registerEvent_eq_some [DecidableEq S] {k : Kernel n m S R} {nr : Nat} {trigger : Option R}
    {x : Exec (Kernel n m S R)} (h : registerEvent k nr trigger = some x) :
    (x = pure k ∧ (trigger = none ∨ m < nr)) ∨
      ∃ (i : Fin m) (r : R), nr = i ∧ trigger = some r ∧
        x = k.subscribeEvent (.pInterrupts i) r := by
  rw [registerEvent] at h
  split at h
  · next hskip => exact .inl ⟨(Option.some.inj h).symm, hskip⟩
  · next hcheck =>
    obtain ⟨i, hi, rfl⟩ := Option.map_eq_some_iff.mp h
    obtain ⟨r, rfl⟩ := Option.ne_none_iff_exists'.mp (not_or.mp hcheck).1
    exact .inr ⟨i, r, element_eq_some.mp hi, rfl, rfl⟩

end

/-! ## Histories -/

inductive TableOp (n m : Nat) (S R : Type)
  | kernel (op : KernelOp n m S R)
  | registerEvent (nr : Nat) (trigger : Option R)
  | dispatchInterrupt (nr : Nat)

/-- A call that stays in the table, or one that has nothing to do with it. -/
inductive TableStep [DecidableEq O] [DecidableEq S] [DecidableEq R] [Fintype R]
    (c : Configuration O S R) : Kernel n m S R → TableOp n m S R → Kernel n m S R → Prop
  | kernel {k op k'} (hop : op.SparesInterrupts) (hcall : KernelStep c k op k') :
      TableStep c k (.kernel op) k'
  | registerEvent {k nr trigger k'} (hcall : registerEvent k nr trigger = some (.ok k')) :
      TableStep c k (.registerEvent nr trigger) k'
  | dispatchInterrupt {k nr k'} (hcall : dispatchInterrupt c k nr = some (.ok k')) :
      TableStep c k (.dispatchInterrupt nr) k'

namespace TableOp

def change : TableOp n m S R → Change (Event m S) R
  | .kernel op => op.change
  | .registerEvent nr (some trigger) =>
    match element nr with
    | some i => .add (.pInterrupts i) trigger
    | none => .keep
  | _ => .keep

variable [DecidableEq S] [DecidableEq R]

/-- The triggers that are subscribed to each event after a history of calls. -/
def subscribed (ops : List (TableOp n m S R)) : Event m S → List R :=
  ops.foldl (fun lists op => op.change.apply lists) fun _ => []

theorem subscribed_snoc (ops : List (TableOp n m S R)) (op : TableOp n m S R) :
    subscribed (ops ++ [op]) = op.change.apply (subscribed ops) := by
  simp [subscribed]

omit [DecidableEq S] in
/-- The triggers registered for the number after one more call. -/
def record (nr : Nat) (triggers : List R) : TableOp n m S R → List R
  | .registerEvent nr' (some trigger) =>
    if nr' = nr ∧ trigger ∉ triggers then triggers ++ [trigger] else triggers
  | _ => triggers

omit [DecidableEq S] in
/-- The triggers that have been registered for the number, in order, each of them once. -/
def registered (nr : Nat) (ops : List (TableOp n m S R)) : List R :=
  ops.foldl (record nr) []

omit [DecidableEq S] in
theorem registered_snoc (nr : Nat) (ops : List (TableOp n m S R)) (op : TableOp n m S R) :
    registered nr (ops ++ [op]) = record nr (registered nr ops) op := by
  simp [registered]

/-- A call that is none of the dispatcher's leaves the subscribers of interrupts. -/
theorem apply_kernel {op : KernelOp n m S R} (hop : op.SparesInterrupts)
    (lists : Event m S → List R) (nr : Fin m) :
    op.change.apply lists (.pInterrupts nr) = lists (.pInterrupts nr) := by
  have hother : ∀ {event : Event m S} (l : List R), event ≠ .pInterrupts nr →
      Function.update lists event l (.pInterrupts nr) = lists (.pInterrupts nr) :=
    fun l hne => Function.update_of_ne hne.symm _ _
  unfold KernelOp.change
  split
  · exact hother _ (hop nr)
  · exact hother _ (hop nr)
  · exact hother _ (by simp)
  · exact hother _ (by simp)
  · exact hother _ (by simp)
  · exact hother _ (by simp)
  · exact hother _ (by simp)
  · rfl

theorem apply_registerEvent (lists : Event m S → List R) (nr' : Nat) (trigger : Option R)
    (nr : Fin m) :
    (registerEvent nr' trigger : TableOp n m S R).change.apply lists (.pInterrupts nr) =
      record nr.val (lists (.pInterrupts nr)) (registerEvent nr' trigger : TableOp n m S R) := by
  cases trigger with
  | none => rfl
  | some trigger =>
    simp only [change, record]
    cases helement : (element nr' : Option (Fin m)) with
    | none =>
      have hne : nr' ≠ nr.val := by
        rintro rfl
        simp at helement
      simp [Change.apply, hne]
    | some i =>
      obtain rfl := element_eq_some.mp helement
      by_cases hi : i = nr
      · subst hi
        simp only [Change.apply, Function.update_self, true_and]
        by_cases hmem : trigger ∈ lists (.pInterrupts i)
        · simp [hmem]
        · simp [hmem]
      · have hne : (i : Nat) ≠ nr.val := fun h => hi (Fin.ext h)
        simp [Change.apply, hne, Ne.symm hi]

end TableOp

/-! ## Runs -/

section
variable [DecidableEq O] [DecidableEq S] [DecidableEq R] [Fintype R] {c : Configuration O S R}
  {k₀ k k' : Kernel n m S R} {place : Task → Place n} {op : TableOp n m S R}
  {ops : List (TableOp n m S R)} {mTimerInterval : Nat}

theorem TableStep.works (h : k.Works c place) (hstep : TableStep c k op k') :
    ∃ place', k'.Works c place' := by
  cases hstep with
  | kernel hop hcall => exact h.step hcall
  | registerEvent hcall =>
    rcases registerEvent_eq_some hcall with ⟨hk, -⟩ | ⟨i, r, rfl, rfl, hk⟩
    · obtain rfl := Except.ok.inj hk
      exact ⟨place, h⟩
    · exact h.step (.subscribeEvent hk.symm)
  | dispatchInterrupt hcall =>
    obtain ⟨i, -, hk⟩ := Option.map_eq_some_iff.mp hcall
    obtain ⟨news, place', h', -⟩ := h.dispatchInterrupt_walk hk
    exact ⟨place', h'⟩

theorem TableStep.changed (h : k.Works c place) (hstep : TableStep c k op k') :
    k.Changed k' op.change := by
  cases hstep with
  | kernel hop hcall => exact Kernel.KernelStep.changed h hcall
  | @registerEvent nr trigger k' hcall =>
    rcases registerEvent_eq_some hcall with ⟨hk, hskip⟩ | ⟨i, r, rfl, rfl, hk⟩
    · obtain rfl := Except.ok.inj hk
      cases trigger with
      | none => exact ⟨rfl, rfl⟩
      | some trigger =>
        have hnone : (element nr : Option (Fin m)) = none :=
          dif_neg (Nat.not_lt.mpr (hskip.resolve_left nofun).le)
        simp only [TableOp.change, hnone]
        exact ⟨rfl, rfl⟩
    · have hsub := Kernel.KernelStep.changed h (.subscribeEvent hk.symm)
      simpa [TableOp.change, KernelOp.change] using hsub
  | dispatchInterrupt hcall =>
    obtain ⟨i, -, hk⟩ := Option.map_eq_some_iff.mp hcall
    obtain ⟨news, place', -, heq, -⟩ := h.dispatchInterrupt_walk hk
    rw [heq]
    exact ⟨rfl, rfl⟩

theorem exists_works (hboot : Kernel.boot mTimerInterval = .ok k₀)
    (hrun : Run (TableStep c) k₀ ops k) : ∃ place, k.Works c place := by
  obtain ⟨k₁, hok, hworks, -⟩ := Kernel.boot_spec (n := n) (m := m) c mTimerInterval
  obtain rfl := Except.ok.inj (hok.symm.trans hboot)
  refine hrun.invariant (motive := fun k => ∃ place, k.Works c place) ⟨_, hworks⟩ ?_
  intro k op k' ⟨place, h⟩ hstep
  exact hstep.works h

theorem subscribes_run (hboot : Kernel.boot mTimerInterval = .ok k₀)
    (hrun : Run (TableStep c) k₀ ops k)
    (halone : ∀ ms, ms <+: ops → Queue.SharedAlone (TableOp.subscribed ms)) :
    k.Subscribes (TableOp.subscribed ops) := by
  induction hrun with
  | nil => exact .boot c hboot
  | @snoc ops k op k' hrun hstep ih =>
    obtain ⟨place, hworks⟩ := exists_works hboot hrun
    have hsub := ih fun ms hms => halone ms (hms.trans (List.prefix_append ops [op]))
    have hlast := halone _ List.prefix_rfl
    rw [TableOp.subscribed_snoc] at hlast ⊢
    exact hsub.changed (hstep.changed hworks) hlast

/-- The subscribers of an interrupt are the triggers that have been registered for it. -/
theorem subscribed_eq_registered (hrun : Run (TableStep c) k₀ ops k) (nr : Fin m) :
    TableOp.subscribed ops (.pInterrupts nr) = TableOp.registered nr.val ops := by
  induction hrun with
  | nil => rfl
  | @snoc ops k op k' hrun hstep ih =>
    rw [TableOp.subscribed_snoc, TableOp.registered_snoc, ← ih]
    cases hstep with
    | kernel hop hcall => exact TableOp.apply_kernel hop _ nr
    | registerEvent hcall => exact TableOp.apply_registerEvent _ _ _ nr
    | dispatchInterrupt hcall => rfl

omit [DecidableEq O] [DecidableEq S] [DecidableEq R] in
/-- Interrupts are given tasks for the subscribers in order, until no task is free. -/
theorem dispatchInterrupt_subscribes {lists : Event m S → List R} (hworks : k.Works c place)
    (hsub : k.Subscribes lists) (nr : Fin m) :
    ∃ k', dispatchInterrupt c k nr.val = some (.ok k') ∧
      k.Raised c .pInterruptTaskPoolQueue (.pInterrupts nr) 0 ((lists (.pInterrupts nr)).take
        (k.tasks.queues .pInterruptTaskPoolQueue).pSize) k' := by
  obtain ⟨k', hcall⟩ := hworks.dispatchInterrupt_ok nr
  obtain ⟨news, place', hworks', heq, hhanded, hwalk⟩ := hworks.dispatchInterrupt_walk hcall
  rw [show k.pInterrupts nr = k.subscribers (.pInterrupts nr) from rfl, hsub.walk] at hwalk
  refine ⟨k', by rw [dispatchInterrupt, element_val, Option.map_some, hcall], heq, ?_⟩
  rw [← hwalk]
  exact hworks.created hworks' hhanded

/-- After any history of calls, `registerEvent` stays in the table exactly if there is no trigger or
the number is not the size of the table, and `dispatchInterrupt` exactly if the number is below it.
If triggers have been shared alone, an interrupt is given a task for each of the triggers that have
been registered for it, in order, as far as tasks are free, and nothing else happens. -/
theorem dispatch_run (hboot : Kernel.boot mTimerInterval = .ok k₀)
    (hrun : Run (TableStep c) k₀ ops k) :
    (∀ nr trigger, (registerEvent k nr trigger).isSome ↔ trigger = none ∨ nr ≠ m) ∧
    (∀ nr, (dispatchInterrupt c k nr).isSome ↔ nr < m) ∧
    ((∀ ms, ms <+: ops → Queue.SharedAlone (TableOp.subscribed ms)) → ∀ nr : Fin m,
      ∃ k', dispatchInterrupt c k nr.val = some (.ok k') ∧
        k.Raised c .pInterruptTaskPoolQueue (.pInterrupts nr) 0
          ((TableOp.registered nr.val ops).take
            (k.tasks.queues .pInterruptTaskPoolQueue).pSize) k') := by
  obtain ⟨place, hworks⟩ := exists_works hboot hrun
  refine ⟨isSome_registerEvent k, isSome_dispatchInterrupt c k, fun halone nr => ?_⟩
  rw [← subscribed_eq_registered hrun nr]
  exact dispatchInterrupt_subscribes hworks (subscribes_run hboot hrun halone) nr

end

/-- One trigger. -/
def oneTrigger : Configuration Unit Bool Unit where
  trigger _ := { pDestinationOSC := some (), pDeps := ⟨[none], DepArray.none_mem⟩, pPriority := 1 }
  pType e := if e then .dummyCallEvent else .softwareEvent
  pType_ne e := by split <;> simp
  pDummyEvent := true
  pDummyEvent_pType := rfl

/-- The trigger is registered for the only interrupt. -/
theorem registered_run : ∃ k₀ k : Kernel 1 1 Bool Unit, Kernel.boot 1 = .ok k₀ ∧
    Run (TableStep oneTrigger) k₀ [.registerEvent 0 (some ())] k := by
  obtain ⟨k₀, hboot, -⟩ := Kernel.boot_spec (n := 1) (m := 1) oneTrigger 1
  have halone : Queue.SharedAlone ((Change.add (.pInterrupts 0) ()).apply
      fun _ : Event 1 Bool => ([] : List Unit)) := by
    refine .of_length_le_one fun event => ?_
    rw [Change.apply, Function.update_apply]
    split <;> simp
  obtain ⟨k, hcall, -⟩ := (Kernel.Subscribes.boot oneTrigger hboot).subscribeEvent halone
  refine ⟨k₀, k, hboot, Run.single (.registerEvent ?_)⟩
  simpa [registerEvent, element, Kernel.registerEvent] using hcall

theorem dispatch_run_registered : ∃ k₀ k : Kernel 1 1 Bool Unit, Kernel.boot 1 = .ok k₀ ∧
    Run (TableStep oneTrigger) k₀ [.registerEvent 0 (some ())] k ∧
    (registerEvent k 2 (some ())).isSome ∧ (dispatchInterrupt oneTrigger k 0).isSome ∧
    ∃ k', dispatchInterrupt oneTrigger k 0 = some (.ok k') ∧
      k.Raised oneTrigger .pInterruptTaskPoolQueue (.pInterrupts 0) 0
        ([()].take (k.tasks.queues .pInterruptTaskPoolQueue).pSize) k' := by
  obtain ⟨k₀, k, hboot, hrun⟩ := registered_run
  have hlaw := dispatch_run hboot hrun
  refine ⟨k₀, k, hboot, hrun, (hlaw.1 2 _).mpr (.inr (by decide)), (hlaw.2.1 0).mpr (by decide),
    hlaw.2.2 (fun ms hms => .of_length_le_one fun event => ?_) 0⟩
  rcases List.prefix_cons_iff.mp hms with rfl | ⟨rest, rfl, hrest⟩
  · simp [TableOp.subscribed]
  · obtain rfl := List.prefix_nil.mp hrest
    have hone : TableOp.subscribed [(.registerEvent 0 (some ()) : TableOp 1 1 Bool Unit)] =
        Function.update (fun _ => []) (.pInterrupts 0) [()] := rfl
    rw [hone, Function.update_apply]
    split <;> simp

/-- With one interrupt, the trigger can be registered for the number 1: the list of the event behind
the table is changed. -/
theorem registerEvent_behind : ∃ k₀ : Kernel 1 1 Bool Unit, Kernel.boot 1 = .ok k₀ ∧
    ¬ (registerEvent k₀ 1 (some ())).isSome ∧ ¬ (dispatchInterrupt oneTrigger k₀ 1).isSome := by
  obtain ⟨k₀, hboot, -⟩ := Kernel.boot_spec (n := 1) (m := 1) oneTrigger 1
  refine ⟨k₀, hboot, fun h => ?_, fun h => ?_⟩
  · simpa using (isSome_registerEvent k₀ 1 (some ())).mp h
  · exact absurd ((isSome_dispatchInterrupt oneTrigger k₀ 1).mp h) (by decide)

end InterruptTable

end CyPhOS
