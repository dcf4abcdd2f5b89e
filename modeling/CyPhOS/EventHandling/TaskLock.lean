import CyPhOS.EventHandling.Trigger
import CyPhOS.Lib.Run
import Mathlib.Data.List.FinRange
import Mathlib.Data.List.Lattice

/-! # Locking the OSCs of a task

`pActiveEventTask` holds the task each CPU runs. There is no lock word in an OSC: `tryTaskLock`
compares the OSCs of the task at hand with those of every active task, under `pActiveTaskLock`,
and enters the task if no two are the same. What it decides is `Trigger.inUse`, which is true
exactly if the two OSC sets meet (`inUse_eq_true_iff`). From this follow the outcome of one call
(`tryTaskLock_spec`) and, over every order of locks and unlocks, that the OSC sets of the active
tasks stay disjoint.
-/

namespace CyPhOS

variable {n : Nat} {T O : Type} [DecidableEq O]

namespace Trigger

/-- `while (*otherDep != nullptr)`, looking for `osc`. -/
def depsContain : List (Option O) → Option O → Bool
  | some otherDep :: rest, osc => some otherDep == osc || depsContain rest osc
  | _, _ => false

/-- `while (*dep != nullptr)`, looking for a dependency that the other trigger uses. -/
def depInUse (other : Trigger O) : List (Option O) → Bool
  | some dep :: rest => some dep == other.pDestinationOSC ||
      depsContain other.pDeps.entries (some dep) || depInUse other rest
  | _ => false

/-- The body of the loop over the CPUs, on one with an active task: is an OSC of `trigger` one of
the OSCs of `other`? -/
def inUse (trigger other : Trigger O) : Bool :=
  trigger.pDestinationOSC == other.pDestinationOSC ||
    depsContain other.pDeps.entries trigger.pDestinationOSC ||
    depInUse other trigger.pDeps.entries

theorem depsContain_eq_true_iff {entries : List (Option O)} {osc : O} :
    depsContain entries (some osc) = true ↔ osc ∈ depSet entries := by
  induction entries with
  | nil => simp [depsContain, depSet]
  | cons entry rest ih =>
    cases entry with
    | none => simp [depsContain, depSet]
    | some otherDep =>
      have hcomm : otherDep = osc ↔ osc = otherDep := eq_comm
      simp [depsContain, depSet, ih, hcomm]

theorem depInUse_eq_true_iff {other : Trigger O} {entries : List (Option O)} :
    depInUse other entries = true ↔ ∃ osc ∈ depSet entries, osc ∈ other.oscSet := by
  induction entries with
  | nil => simp [depInUse, depSet]
  | cons entry rest ih =>
    cases entry with
    | none => simp [depInUse, depSet]
    | some dep =>
      have hdep : some dep = other.pDestinationOSC ∨ dep ∈ depSet other.pDeps.entries ↔
          dep ∈ other.oscSet := by
        rw [mem_oscSet, eq_comm]
      simp only [depInUse, Bool.or_eq_true, beq_iff_eq, depsContain_eq_true_iff, hdep, ih, depSet,
        List.exists_mem_cons_iff]

/-- The four kinds of comparison together decide whether the two OSC sets meet. -/
theorem inUse_eq_true_iff {trigger other : Trigger O} {osc : O}
    (hosc : trigger.pDestinationOSC = some osc) :
    trigger.inUse other = true ↔ ¬ trigger.oscSet.Disjoint other.oscSet := by
  have hmain : some osc = other.pDestinationOSC ∨ osc ∈ depSet other.pDeps.entries ↔
      osc ∈ other.oscSet := by
    rw [mem_oscSet, eq_comm]
  have hset : trigger.oscSet = osc :: depSet trigger.pDeps.entries := by simp [oscSet, hosc]
  simp only [inUse, hosc, Bool.or_eq_true, beq_iff_eq, depsContain_eq_true_iff, hmain,
    depInUse_eq_true_iff, hset, List.disjoint_cons_left, not_and_or, not_not]
  refine or_congr_right ?_
  simp [List.Disjoint]

end Trigger

/-! ## The calls -/

section
variable (trigger : T → Option (Trigger O))

/-- The loop over the CPUs: does one of them run a task that uses an OSC of `tr`? -/
def anyCPUUses (pActiveEventTask : Fin n → Option T) (tr : Trigger O) : List (Fin n) → Exec Bool
  | [] => .ok false
  | cpu :: cpus =>
    match pActiveEventTask cpu with
    | none => anyCPUUses pActiveEventTask tr cpus
    | some active => do
      let other ← derefTrigger trigger active
      if tr.inUse other then pure true else anyCPUUses pActiveEventTask tr cpus

/-- `tryTaskLock` on the CPU `cpu`. A task without a destination hangs before the lock is
taken. -/
def tryTaskLock (pActiveEventTask : Fin n → Option T) (cpu : Fin n) (task : T) :
    Exec (Bool × (Fin n → Option T)) := do
  let tr ← derefTrigger trigger task
  if tr.pDestinationOSC = none then .error .hang
  else if ← anyCPUUses trigger pActiveEventTask tr (List.finRange n) then
    pure (false, pActiveEventTask)
  else
    pure (true, Function.update pActiveEventTask cpu (some task))

/-- `unlockTask` on the CPU `cpu`. The table entry is cleared even if another task is in it. -/
def unlockTask (pActiveEventTask : Fin n → Option T) (cpu : Fin n) (_task : T) :
    Fin n → Option T :=
  Function.update pActiveEventTask cpu none

/-- The OSC set of a task. -/
def taskOSCs (task : T) : List O :=
  match trigger task with
  | some tr => tr.oscSet
  | none => []

variable {trigger} {pActiveEventTask : Fin n → Option T}

omit [DecidableEq O] in
theorem taskOSCs_eq {task : T} {tr : Trigger O} (h : trigger task = some tr) :
    taskOSCs trigger task = tr.oscSet := by
  simp [taskOSCs, h]

/-- The loop returns if the active tasks have triggers, and it answers whether an active task of
the listed CPUs uses an OSC of the task. -/
theorem anyCPUUses_spec {tr : Trigger O} {osc : O} (hosc : tr.pDestinationOSC = some osc)
    (hactive : ∀ cpu t, pActiveEventTask cpu = some t → (trigger t).isSome)
    (cpus : List (Fin n)) : ∃ b, anyCPUUses trigger pActiveEventTask tr cpus = .ok b ∧
      (b = true ↔ ∃ cpu ∈ cpus, ∃ t, pActiveEventTask cpu = some t ∧
        ¬ tr.oscSet.Disjoint (taskOSCs trigger t)) := by
  induction cpus with
  | nil => exact ⟨false, rfl, by simp⟩
  | cons cpu cpus ih =>
    obtain ⟨b, hb, hiff⟩ := ih
    cases hcpu : pActiveEventTask cpu with
    | none => exact ⟨b, by simp [anyCPUUses, hcpu, hb], by simp [hiff, hcpu]⟩
    | some active =>
      obtain ⟨other, hother⟩ := Option.isSome_iff_exists.mp (hactive cpu active hcpu)
      have huse : tr.inUse other = true ↔ ¬ tr.oscSet.Disjoint (taskOSCs trigger active) := by
        rw [taskOSCs_eq hother]
        exact Trigger.inUse_eq_true_iff hosc
      cases hin : tr.inUse other with
      | true =>
        refine ⟨true, ?_, by simp [hcpu, huse.mp hin]⟩
        simp [anyCPUUses, hcpu, derefTrigger_eq_ok.mpr hother, hin]
      | false =>
        refine ⟨b, ?_, ?_⟩
        · simp [anyCPUUses, hcpu, derefTrigger_eq_ok.mpr hother, hin, hb]
        · have hdisj : tr.oscSet.Disjoint (taskOSCs trigger active) := by
            simpa [hin] using huse
          simp [hiff, hcpu, hdisj]

/-- The outcome of a call on a CPU that has no active task. -/
theorem tryTaskLock_spec {cpu : Fin n} {task : T} {tr : Trigger O} {osc : O}
    (htask : trigger task = some tr) (hosc : tr.pDestinationOSC = some osc)
    (hactive : ∀ cpu t, pActiveEventTask cpu = some t → (trigger t).isSome)
    (hcpu : pActiveEventTask cpu = none) :
    ∃ r s', tryTaskLock trigger pActiveEventTask cpu task = .ok (r, s') ∧
      (r = true ↔ ∀ cpu' t, cpu' ≠ cpu → pActiveEventTask cpu' = some t →
        (taskOSCs trigger task).Disjoint (taskOSCs trigger t)) ∧
      (r = true → s' = Function.update pActiveEventTask cpu (some task)) ∧
      (r = false → s' = pActiveEventTask) := by
  obtain ⟨b, hb, hiff⟩ := anyCPUUses_spec hosc hactive (List.finRange n)
  -- the loop also looks at the calling CPU, which has no active task
  have hfree : b = false ↔ ∀ cpu' t, cpu' ≠ cpu → pActiveEventTask cpu' = some t →
      (taskOSCs trigger task).Disjoint (taskOSCs trigger t) := by
    rw [taskOSCs_eq htask, ← Bool.not_eq_true, hiff]
    constructor
    · intro h cpu' t _ ht
      by_contra hd
      exact h ⟨cpu', List.mem_finRange cpu', t, ht, hd⟩
    · intro h
      simp only [not_exists, not_and, not_not]
      intro cpu' _ t ht
      refine h cpu' t (fun e => ?_) ht
      rw [e, hcpu] at ht
      cases ht
  cases b with
  | false =>
    refine ⟨true, Function.update pActiveEventTask cpu (some task), ?_, ?_, fun _ => rfl, ?_⟩
    · simp [tryTaskLock, derefTrigger_eq_ok.mpr htask, hosc, hb]
    · simpa using hfree
    · simp
  | true =>
    refine ⟨false, pActiveEventTask, ?_, ?_, by simp, fun _ => rfl⟩
    · simp [tryTaskLock, derefTrigger_eq_ok.mpr htask, hosc, hb]
    · simpa using hfree

/-- A call that returns: the task had a trigger and the outcome is one of the two. -/
theorem tryTaskLock_cases {cpu : Fin n} {task : T} {r : Bool} {s' : Fin n → Option T}
    (h : tryTaskLock trigger pActiveEventTask cpu task = .ok (r, s')) :
    (∃ tr osc, trigger task = some tr ∧ tr.pDestinationOSC = some osc) ∧
      (r = false ∧ s' = pActiveEventTask ∨
        r = true ∧ s' = Function.update pActiveEventTask cpu (some task)) := by
  obtain ⟨tr, htr, h⟩ := Exec.bind_eq_ok.mp h
  cases hosc : tr.pDestinationOSC with
  | none => simp [hosc] at h
  | some osc =>
    refine ⟨⟨tr, osc, derefTrigger_eq_ok.mp htr, hosc⟩, ?_⟩
    rw [if_neg (by simp [hosc])] at h
    obtain ⟨b, -, h⟩ := Exec.bind_eq_ok.mp h
    cases b with
    | true => exact .inl (by simpa [eq_comm] using h)
    | false => exact .inr (by simpa [eq_comm] using h)

/-- An OSC of the task belongs to an active task. -/
def OSCsInUse (trigger : T → Option (Trigger O)) (pActiveEventTask : Fin n → Option T)
    (task : T) : Prop :=
  ∃ cpu active, pActiveEventTask cpu = some active ∧
    ¬ (taskOSCs trigger task).Disjoint (taskOSCs trigger active)

/-- A call that returns on a CPU without an active task refuses a task with an OSC in use. -/
theorem tryTaskLock_refused_iff {cpu : Fin n} {task : T} {r : Bool} {s' : Fin n → Option T}
    (hactive : ∀ cpu t, pActiveEventTask cpu = some t → (trigger t).isSome)
    (hcpu : pActiveEventTask cpu = none)
    (h : tryTaskLock trigger pActiveEventTask cpu task = .ok (r, s')) :
    r = false ↔ OSCsInUse trigger pActiveEventTask task := by
  obtain ⟨⟨tr, osc, htr, hosc⟩, -⟩ := tryTaskLock_cases h
  obtain ⟨r', s'', hcall, hiff, -⟩ := tryTaskLock_spec htr hosc hactive hcpu
  cases h.symm.trans hcall
  rw [← Bool.not_eq_true, hiff]
  simp only [OSCsInUse, not_forall]
  constructor
  · rintro ⟨c, t, -, ht, hdisj⟩
    exact ⟨c, t, ht, hdisj⟩
  · rintro ⟨c, t, ht, hdisj⟩
    refine ⟨c, t, fun e => ?_, ht, hdisj⟩
    rw [e, hcpu] at ht
    cases ht

/-- As a step of the scheduler: a task with a trigger, and the task hangs only if that trigger has
no destination. -/
theorem tryTaskLock_sat {cpu : Fin n} {task : T} {hangs : Prop} (htask : (trigger task).isSome)
    (hactive : ∀ cpu t, pActiveEventTask cpu = some t → (trigger t).isSome)
    (hcpu : pActiveEventTask cpu = none)
    (hhangs : ∀ tr, trigger task = some tr → tr.pDestinationOSC = none → hangs) :
    (tryTaskLock trigger pActiveEventTask cpu task).Sat hangs fun (locked, s') =>
      s' = if locked then Function.update pActiveEventTask cpu (some task)
        else pActiveEventTask := by
  obtain ⟨tr, htr⟩ := Option.isSome_iff_exists.mp htask
  cases hosc : tr.pDestinationOSC with
  | none =>
    have hhang : tryTaskLock trigger pActiveEventTask cpu task = .error .hang := by
      simp [tryTaskLock, derefTrigger_eq_ok.mpr htr, hosc]
    rw [hhang]
    exact hhangs tr htr hosc
  | some osc =>
    obtain ⟨r, s', hok, -, htrue, hfalse⟩ := tryTaskLock_spec htr hosc hactive hcpu
    rw [hok]
    cases r with
    | true => simpa using htrue rfl
    | false => simpa using hfalse rfl

end

/-! ## Runs -/

inductive LockOp (n : Nat) (T : Type)
  | tryTaskLock (cpu : Fin n) (task : T)
  | unlockTask (cpu : Fin n) (task : T)

/-- One call on the table of active tasks. A task is only locked by a CPU that has no active
task, which is what the dispatcher does. -/
inductive LockStep (trigger : T → Option (Trigger O)) :
    (Fin n → Option T) → LockOp n T → (Fin n → Option T) → Prop
  | tryTaskLock {s s' cpu task r} (hcpu : s cpu = none)
      (hcall : tryTaskLock trigger s cpu task = .ok (r, s')) :
      LockStep trigger s (.tryTaskLock cpu task) s'
  | unlockTask {s cpu task} : LockStep trigger s (.unlockTask cpu task) (unlockTask s cpu task)

/-- The active tasks have triggers, and no two of them share an OSC. -/
structure Exclusive (trigger : T → Option (Trigger O)) (s : Fin n → Option T) : Prop where
  triggered : ∀ cpu t, s cpu = some t → (trigger t).isSome
  disjoint : ∀ cpu cpu' t t', cpu ≠ cpu' → s cpu = some t → s cpu' = some t' →
    (taskOSCs trigger t).Disjoint (taskOSCs trigger t')

section
variable {trigger : T → Option (Trigger O)} {s s' : Fin n → Option T} {cpu : Fin n} {task : T}

omit [DecidableEq O] in
theorem Exclusive.empty : Exclusive (n := n) trigger fun _ => none :=
  ⟨by simp, by simp⟩

omit [DecidableEq O] in
/-- Entering a task whose OSCs are free. -/
theorem Exclusive.enter (h : Exclusive trigger s) (htask : (trigger task).isSome)
    (hfree : ∀ cpu' t, cpu' ≠ cpu → s cpu' = some t →
      (taskOSCs trigger task).Disjoint (taskOSCs trigger t)) :
    Exclusive trigger (Function.update s cpu (some task)) where
  triggered cpu' t ht := by
    by_cases hc : cpu' = cpu
    · subst hc
      simpa [← (by simpa using ht : task = t)] using htask
    · exact h.triggered cpu' t (by simpa [Function.update_of_ne hc] using ht)
  disjoint cpu₁ cpu₂ t₁ t₂ hne h₁ h₂ := by
    by_cases hc₁ : cpu₁ = cpu
    · subst hc₁
      obtain rfl : task = t₁ := by simpa using h₁
      exact hfree cpu₂ t₂ hne.symm (by simpa [Function.update_of_ne hne.symm] using h₂)
    · rw [Function.update_of_ne hc₁] at h₁
      by_cases hc₂ : cpu₂ = cpu
      · subst hc₂
        obtain rfl : task = t₂ := by simpa using h₂
        exact (hfree cpu₁ t₁ hc₁ h₁).symm
      · exact h.disjoint cpu₁ cpu₂ t₁ t₂ hne h₁ (by simpa [Function.update_of_ne hc₂] using h₂)

omit [DecidableEq O] in
/-- Leaving only takes an OSC set away. -/
theorem Exclusive.leave (h : Exclusive trigger s) :
    Exclusive trigger (Function.update s cpu none) := by
  have hsub : ∀ cpu' t, Function.update s cpu none cpu' = some t → s cpu' = some t := by
    intro cpu' t ht
    by_cases hc : cpu' = cpu
    · subst hc
      simp at ht
    · simpa [Function.update_of_ne hc] using ht
  exact ⟨fun cpu' t ht => h.triggered cpu' t (hsub cpu' t ht), fun c c' t t' hne ht ht' =>
    h.disjoint c c' t t' hne (hsub c t ht) (hsub c' t' ht')⟩

theorem Exclusive.tryTaskLock {r : Bool} (h : Exclusive trigger s) (hcpu : s cpu = none)
    (hcall : tryTaskLock trigger s cpu task = .ok (r, s')) : Exclusive trigger s' := by
  obtain ⟨⟨tr, osc, htr, hosc⟩, -⟩ := tryTaskLock_cases hcall
  obtain ⟨r', t', hcall', hiff, htrue, hfalse⟩ := tryTaskLock_spec htr hosc h.triggered hcpu
  cases hcall.symm.trans hcall'
  cases r with
  | true =>
    rw [htrue rfl]
    exact h.enter (by simp [htr]) (hiff.mp rfl)
  | false =>
    rw [hfalse rfl]
    exact h

theorem Exclusive.step {op : LockOp n T} (h : Exclusive trigger s)
    (hstep : LockStep trigger s op s') : Exclusive trigger s' := by
  cases hstep with
  | tryTaskLock hcpu hcall => exact h.tryTaskLock hcpu hcall
  | unlockTask => exact h.leave

/-- Over every order of locks and unlocks, two CPUs never run tasks that share an OSC, and a lock
is granted exactly if no other CPU runs a task that shares one with the task at hand. -/
theorem osc_mutual_exclusion {ls : List (LockOp n T)}
    (hrun : Transition.Run (LockStep trigger) (fun _ => none) ls s) :
    (∀ cpu cpu' t t', cpu ≠ cpu' → s cpu = some t → s cpu' = some t' →
      (taskOSCs trigger t).Disjoint (taskOSCs trigger t')) ∧
    ∀ cpu task tr, s cpu = none → trigger task = some tr → tr.pDestinationOSC ≠ none →
      ∃ r s', tryTaskLock trigger s cpu task = .ok (r, s') ∧
        (r = true ↔ ∀ cpu' t, cpu' ≠ cpu → s cpu' = some t →
          (taskOSCs trigger task).Disjoint (taskOSCs trigger t)) ∧
        (r = true → s' = Function.update s cpu (some task)) ∧ (r = false → s' = s) := by
  have hinv : Exclusive trigger s := hrun.invariant Exclusive.empty Exclusive.step
  refine ⟨hinv.disjoint, fun cpu task tr hcpu htr hdest => ?_⟩
  obtain ⟨osc, hosc⟩ := Option.ne_none_iff_exists'.mp hdest
  exact tryTaskLock_spec htr hosc hinv.triggered hcpu

end

/-- Two tasks with different destinations and a common dependency. -/
def sharedDependency (task : Bool) : Option (Trigger Nat) :=
  some { pDestinationOSC := some task.toNat, pDeps := ⟨[some 2, none], by simp⟩, pPriority := 1 }

theorem osc_mutual_exclusion_sharedDependency :
    ∃ r s', tryTaskLock sharedDependency (Function.update (fun _ => none) 0 (some false))
        (1 : Fin 2) true = .ok (r, s') ∧
      (r = true ↔ ∀ cpu' t, cpu' ≠ 1 →
        Function.update (fun _ => none) (0 : Fin 2) (some false) cpu' = some t →
        (taskOSCs sharedDependency true).Disjoint (taskOSCs sharedDependency t)) ∧
      (r = true → s' = Function.update (Function.update (fun _ => none) 0 (some false)) 1
        (some true)) ∧
      (r = false → s' = Function.update (fun _ => none) 0 (some false)) := by
  have hcall : tryTaskLock sharedDependency (fun _ => none) (0 : Fin 2) false =
      .ok (true, Function.update (fun _ => none) 0 (some false)) := rfl
  have hrun := Transition.Run.single (LockStep.tryTaskLock rfl hcall)
  exact (osc_mutual_exclusion hrun).2 1 true _ rfl rfl (by simp)

end CyPhOS
