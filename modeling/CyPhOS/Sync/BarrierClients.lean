import CyPhOS.Sync.BarrierProgress

/-! # Programs that call the barrier

A program whose threads call `await` keeps of each thread how often it has called and whether it is
in a call (`Clients`). The barrier moves both in one way only, so what the program says of them has to
be checked where a thread calls and where it returns; the steps between the two keep it
(`Clients.inside`).
-/

namespace CyPhOS

open Transition

namespace Barrier

variable {T : Type} [DecidableEq T] [Fintype T]

/-- The thread has called `await` and not returned yet. -/
def Control.inAwait : Control → Bool
  | outside => false
  | _ => true

/-- The barrier has come to its state by its own steps, and what the program says of each thread
agrees with how often it has called `await` and whether it is in a call. -/
structure Clients (agrees : T → Nat → Bool → Prop) (b : State T) : Prop where
  reachable : ∃ ls, Run Step .initial ls b
  agrees : ∀ i, agrees i (b.calls i) (b.control i).inAwait

variable {b b' : State T} {l : Label T} {i : T} {agrees agrees' : T → Nat → Bool → Prop}

theorem step_frame (hstep : Step b l b') (hi : i ≠ l.thread) :
    b'.control i = b.control i ∧ b'.calls i = b.calls i := by
  cases hstep with
  | call => exact ⟨Function.update_of_ne hi .., Function.update_of_ne hi ..⟩
  | _ => exact ⟨Function.update_of_ne hi .., rfl⟩

/-- The steps between the call and the return. -/
theorem step_inside (hstep : Step b l b') (hinside : ∀ i, l ≠ .call i ∧ l ≠ .returns i) :
    b.control l.thread ≠ .outside ∧ b'.control l.thread ≠ .outside ∧ b'.calls = b.calls := by
  cases hstep with
  | @call j => exact absurd rfl (hinside j).1
  | @returns j => exact absurd rfl (hinside j).2
  | @decrement j hj =>
    refine ⟨by simp [Label.thread, hj], ?_, rfl⟩
    by_cases hlast : b.mNotReady = 1 <;> simp [Label.thread, State.goto, hlast]
  | @lockReady j hj | @lastWaits j hj | @reset j hj | @lastUnlocks j hj | @lockWaiting j hj
  | @arrive j hj | @unlockWaiting j hj | @unlockReady j hj | @spin j hj | @lockLeave j hj
  | @leave j hj | @unlockLeave j hj => simp [Label.thread, State.goto, hj]

@[simp] theorem Control.inAwait_eq_false {c : Control} : c.inAwait = false ↔ c = .outside := by
  cases c <;> simp [Control.inAwait]

theorem Clients.initial (h : ∀ i, agrees i 0 false) : Clients agrees State.initial :=
  ⟨⟨[], .nil⟩, h⟩

/-- The program moves on by itself. -/
theorem Clients.mono (h : Clients agrees b) (hagrees : ∀ i, agrees i (b.calls i)
    (b.control i).inAwait → agrees' i (b.calls i) (b.control i).inAwait) : Clients agrees' b :=
  ⟨h.reachable, fun i => hagrees i (h.agrees i)⟩

/-- A step of one thread, which agrees afterwards. -/
theorem Clients.step (h : Clients agrees b) (hstep : Step b l b')
    (hothers : ∀ j ≠ l.thread, ∀ calls inAwait, agrees j calls inAwait → agrees' j calls inAwait)
    (hthread : agrees l.thread (b.calls l.thread) (b.control l.thread).inAwait →
      agrees' l.thread (b'.calls l.thread) (b'.control l.thread).inAwait) : Clients agrees' b' := by
  obtain ⟨ls, hrun⟩ := h.reachable
  refine ⟨⟨_, hrun.snoc hstep⟩, fun j => ?_⟩
  rcases eq_or_ne j l.thread with rfl | hne
  · exact hthread (h.agrees _)
  · obtain ⟨hcontrol, hcalls⟩ := step_frame hstep hne
    rw [hcontrol, hcalls]
    exact hothers j hne _ _ (h.agrees j)

theorem Clients.call (h : Clients agrees b) (hstep : Step b (.call i) b')
    (hothers : ∀ j ≠ i, ∀ calls inAwait, agrees j calls inAwait → agrees' j calls inAwait)
    (hthread : ∀ calls, agrees i calls false → agrees' i (calls + 1) true) : Clients agrees' b' := by
  refine h.step hstep hothers fun hagrees => ?_
  cases hstep with
  | call hcontrol =>
    rw [Label.thread, hcontrol] at hagrees
    simpa [Label.thread, State.goto, Control.inAwait] using hthread _ hagrees

theorem Clients.returns (h : Clients agrees b) (hstep : Step b (.returns i) b')
    (hothers : ∀ j ≠ i, ∀ calls inAwait, agrees j calls inAwait → agrees' j calls inAwait)
    (hthread : ∀ calls, agrees i calls true → agrees' i calls false) : Clients agrees' b' := by
  refine h.step hstep hothers fun hagrees => ?_
  cases hstep with
  | returns hcontrol =>
    rw [Label.thread, hcontrol] at hagrees
    simpa [Label.thread, State.goto, Control.inAwait] using hthread _ hagrees

/-- A thread goes on in a call. -/
theorem Clients.inside (h : Clients agrees b) (hstep : Step b l b')
    (hinside : ∀ i, l ≠ .call i ∧ l ≠ .returns i) : Clients agrees b' := by
  refine h.step hstep (fun _ _ _ _ hagrees => hagrees) fun hagrees => ?_
  obtain ⟨hbefore, hafter, hcalls⟩ := step_inside hstep hinside
  have hin : ∀ {c : Control}, c ≠ .outside → c.inAwait = true := fun hc =>
    Bool.eq_true_of_not_eq_false fun hfalse => hc (Control.inAwait_eq_false.mp hfalse)
  rwa [hcalls, hin hafter, ← hin hbefore]

/-! ## Runs through the barrier -/

/-- A thread calls `await` and spins until the last has called it. -/
def arriving (i : T) : List (Label T) :=
  [.call i, .other i, .decrement i, .other i, .other i, .other i, .other i]

/-- The last thread calls `await`, by which it opens the barrier for those that spin. -/
def arrivingLast (i : T) : List (Label T) := [.call i, .other i, .decrement i]

/-- A thread that spun leaves the barrier. -/
def leaving (i : T) : List (Label T) := [.other i, .other i, .leave i, .other i, .returns i]

end Barrier
end CyPhOS
