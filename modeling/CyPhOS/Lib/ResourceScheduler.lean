import CyPhOS.Lib.Run
import Mathlib.Data.Set.BooleanAlgebra
import Mathlib.Order.CompletePartialOrder

/-! # Scheduling jobs that need resources

Jobs of several kinds are submitted and wait until a worker starts them. The kind of a job says which
resources it needs, and a worker may start a job if no running job needs one of them. Where the jobs
wait, and in which order they are started, is left open.

* `Exclusive.of_run`: a worker runs one job at a time, and no resource is needed by two running jobs;
* `submits_of_run`: a job is started once for each time it was submitted, or it is waiting;
* `starts_of_run`: a worker has finished what it has started, or it is running a job.
-/

namespace ResourceScheduler

open Transition

/-- Where a job is. -/
inductive Status (C R : Type*)
  | free
  | waiting (kind : R)
  | running (worker : C) (kind : R)

inductive Label (C J R : Type*)
  | submit (job : J) (kind : R)
  | start (worker : C) (job : J)
  | finish (worker : C)

variable {C J R O : Type*} [DecidableEq J] {resources : R → Set O} {s s' : J → Status C R}
  {l : Label C J R} {ls : List (Label C J R)} {job : J}

/-- The resources that a running job needs. -/
def Status.inUse (resources : R → Set O) : Status C R → Set O
  | running _ kind => resources kind
  | _ => ∅

inductive Step (resources : R → Set O) :
    (J → Status C R) → Label C J R → (J → Status C R) → Prop
  | submit {s job kind} (hfree : s job = .free) :
      Step resources s (.submit job kind) (Function.update s job (.waiting kind))
  | start {s worker job kind} (hwaiting : s job = .waiting kind)
      (hworker : ∀ other kind', s other ≠ .running worker kind')
      (hresources : ∀ other, Disjoint (resources kind) ((s other).inUse resources)) :
      Step resources s (.start worker job) (Function.update s job (.running worker kind))
  | finish {s worker job kind} (hrunning : s job = .running worker kind) :
      Step resources s (.finish worker) (Function.update s job .free)

/-! ## Running jobs -/

/-- A worker runs one job at a time, and running jobs need different resources. -/
structure Exclusive (resources : R → Set O) (s : J → Status C R) : Prop where
  worker : ∀ worker job job' kind kind', s job = .running worker kind →
    s job' = .running worker kind' → job = job'
  resources : ∀ job job', job ≠ job' →
    Disjoint ((s job).inUse resources) ((s job').inUse resources)

omit [DecidableEq J] in
theorem Exclusive.initial : Exclusive resources (fun _ : J => (.free : Status C R)) :=
  ⟨by simp, fun _ _ _ => disjoint_bot_right⟩

/-- Jobs that do not run need nothing. -/
theorem Exclusive.update (h : Exclusive resources s) {status : Status C R}
    (hstatus : ∀ worker kind, status ≠ .running worker kind) :
    Exclusive resources (Function.update s job status) := by
  have hempty : status.inUse resources = ∅ := by
    cases status with
    | running worker kind => exact absurd rfl (hstatus worker kind)
    | _ => rfl
  refine ⟨fun worker i j kind kind' hi hj => ?_, fun i j hne => ?_⟩
  · rcases eq_or_ne i job with rfl | hi'
    · rw [Function.update_self] at hi
      exact absurd hi (hstatus worker kind)
    rcases eq_or_ne j job with rfl | hj'
    · rw [Function.update_self] at hj
      exact absurd hj (hstatus worker kind')
    rw [Function.update_of_ne hi'] at hi
    rw [Function.update_of_ne hj'] at hj
    exact h.worker worker i j kind kind' hi hj
  · rcases eq_or_ne i job with rfl | hi
    · rw [Function.update_self, hempty]
      exact disjoint_bot_left
    rcases eq_or_ne j job with rfl | hj
    · rw [Function.update_self, hempty]
      exact disjoint_bot_right
    rw [Function.update_of_ne hi, Function.update_of_ne hj]
    exact h.resources i j hne

theorem Exclusive.step (h : Exclusive resources s) (hstep : Step resources s l s') :
    Exclusive resources s' := by
  cases hstep with
  | submit | finish => exact h.update (by simp)
  | @start worker job kind hwaiting hworker hresources =>
    refine ⟨fun w i j kind₁ kind₂ hi hj => ?_, fun i j hne => ?_⟩
    · rcases eq_or_ne i job with hi' | hi' <;> rcases eq_or_ne j job with hj' | hj'
      · exact hi'.trans hj'.symm
      · rw [hi', Function.update_self] at hi
        rw [Function.update_of_ne hj'] at hj
        cases hi
        exact absurd hj (hworker j kind₂)
      · rw [hj', Function.update_self] at hj
        rw [Function.update_of_ne hi'] at hi
        cases hj
        exact absurd hi (hworker i kind₁)
      · rw [Function.update_of_ne hi'] at hi
        rw [Function.update_of_ne hj'] at hj
        exact h.worker w i j kind₁ kind₂ hi hj
    · rcases eq_or_ne i job with hi | hi <;> rcases eq_or_ne j job with hj | hj
      · exact absurd (hi.trans hj.symm) hne
      · rw [hi, Function.update_self, Function.update_of_ne hj]
        exact hresources j
      · rw [hj, Function.update_self, Function.update_of_ne hi]
        exact (hresources i).symm
      · rw [Function.update_of_ne hi, Function.update_of_ne hj]
        exact h.resources i j hne

theorem Exclusive.of_run (h : Exclusive resources s) (hrun : Run (Step resources) s ls s') :
    Exclusive resources s' :=
  hrun.invariant h fun h hstep => h.step hstep

/-! ## Submissions -/

/-- The label submits the job. -/
def Label.submits (job : J) : Label C J R → Bool
  | submit job' _ => job' = job
  | _ => false

def Label.starts (job : J) : Label C J R → Bool
  | start _ job' => job' = job
  | _ => false

/-- How often a job waits: once or not at all. -/
def Status.waits : Status C R → Nat
  | waiting _ => 1
  | _ => 0

theorem submits_of_run (hrun : Run (Step resources) (fun _ => .free) ls s) (job : J) :
    ls.countP (Label.submits job) = ls.countP (Label.starts job) + (s job).waits := by
  induction hrun with
  | nil => rfl
  | snoc _ hstep ih =>
    simp only [List.countP_append, List.countP_singleton]
    cases hstep with
    | @submit job' _ hold | @start _ job' _ hold | @finish _ job' _ hold =>
      rcases eq_or_ne job' job with rfl | hne
      · simp only [hold, Status.waits] at ih
        simp [Label.submits, Label.starts, Status.waits, ih]
      · simpa [Label.submits, Label.starts, hne, hne.symm] using ih

/-! ## Workers -/

section
variable [DecidableEq C] {worker : C}

/-- The worker starts a job. -/
def Label.startsOn (worker : C) : Label C J R → Bool
  | start worker' _ => worker' = worker
  | _ => false

def Label.finishesOn (worker : C) : Label C J R → Bool
  | finish worker' => worker' = worker
  | _ => false

def Busy (s : J → Status C R) (worker : C) : Prop := ∃ job kind, s job = .running worker kind

omit [DecidableEq C] in
/-- Workers that neither start nor finish a job go on with what they do. -/
theorem busy_update_iff {status : Status C R}
    (hold : ∀ kind, s job ≠ .running worker kind) (hnew : ∀ kind, status ≠ .running worker kind) :
    Busy (Function.update s job status) worker ↔ Busy s worker := by
  refine exists_congr fun job' => exists_congr fun kind => ?_
  rcases eq_or_ne job' job with rfl | hne
  · rw [Function.update_self]
    exact iff_of_false (hnew kind) (hold kind)
  · rw [Function.update_of_ne hne]

theorem starts_of_run (hrun : Run (Step resources) (fun _ => .free) ls s) (worker : C) :
    (Busy s worker → ls.countP (Label.startsOn worker) =
        ls.countP (Label.finishesOn worker) + 1) ∧
      (¬ Busy s worker → ls.countP (Label.startsOn worker) =
        ls.countP (Label.finishesOn worker)) := by
  induction hrun with
  | nil =>
    refine ⟨?_, fun _ => rfl⟩
    rintro ⟨job, kind, hjob⟩
    cases hjob
  | @snoc ls s l s' hrun hstep ih =>
    have hexclusive := Exclusive.of_run .initial hrun
    simp only [List.countP_append, List.countP_singleton]
    cases hstep with
    | @submit job kind hfree =>
      rw [busy_update_iff (by simp [hfree]) (by simp)]
      simpa [Label.startsOn, Label.finishesOn] using ih
    | @start worker' job kind hwaiting hworker =>
      rcases eq_or_ne worker' worker with rfl | hne
      · have hidle : ¬ Busy s worker' := by
          rintro ⟨other, kind', hother⟩
          exact hworker other kind' hother
        have hbusy : Busy (Function.update s job (.running worker' kind)) worker' :=
          ⟨job, kind, Function.update_self ..⟩
        have hsame := ih.2 hidle
        exact ⟨fun _ => by simp [Label.startsOn, Label.finishesOn, hsame],
          fun hnot => absurd hbusy hnot⟩
      · rw [busy_update_iff (by simp [hwaiting]) (by simp [hne])]
        simpa [Label.startsOn, Label.finishesOn, hne] using ih
    | @finish worker' job kind hrunning =>
      rcases eq_or_ne worker' worker with rfl | hne
      · have hidle : ¬ Busy (Function.update s job .free) worker' := by
          rintro ⟨other, kind', hother⟩
          rcases eq_or_ne other job with rfl | hother'
          · rw [Function.update_self] at hother
            cases hother
          · rw [Function.update_of_ne hother'] at hother
            exact hother' (hexclusive.worker worker' other job kind' kind hother hrunning)
        have hsame := ih.1 ⟨job, kind, hrunning⟩
        exact ⟨fun hbusy => absurd hbusy hidle,
          fun _ => by simp [Label.startsOn, Label.finishesOn, hsame]⟩
      · rw [busy_update_iff (by simp [hrunning, hne]) (by simp)]
        simpa [Label.startsOn, Label.finishesOn, hne] using ih

end

end ResourceScheduler
