import CyPhOS.Lib.Census
import CyPhOS.Lib.Run

/-! # The barrier

`await` counts `mNotReady` down. The last thread to arrive waits until the others, which spin until
the count is zero, have left, and sets the count back. Every access to a counter is one step here, as
are taking and releasing the two locks, which a thread can only take when they are free.

The barrier is in its round `r` when it has been set back `r` times (`InRound`). It is open as long
as threads arrive, and closed from the last arrival until it is set back. `Control.calls` says how
often a thread has called `await` by the place where it is, from which `barrier_safe` reads that no
thread is a round ahead.
-/

namespace CyPhOS

open Transition Census

namespace Barrier

/-- Where a thread is in `await`, named after what it does next. -/
inductive Control
  | outside
  | lockReady
  | decrement
  | lastWaits
  | reset
  | lastUnlocks
  | lockWaiting
  | arrive
  | unlockWaiting
  | unlockReady
  | spin
  | lockLeave
  | leave
  | unlockLeave
  | returns
  deriving DecidableEq

/-- The barrier, the threads, and how often each has called `await`. -/
structure State (T : Type) where
  mNotReady : Nat
  mWaiting : Nat
  mReadyLock : Option T
  mWaitingLock : Option T
  control : T → Control
  calls : T → Nat

inductive Label (T : Type)
  | call (thread : T)
  | decrement (thread : T)
  | leave (thread : T)
  | returns (thread : T)
  | other (thread : T)

/-- `counter--` on an `unsigned int`. -/
def decrement (counter : Nat) : Nat := if counter = 0 then 2 ^ 32 - 1 else counter - 1

variable {T : Type} [DecidableEq T] [Fintype T]

/-- A barrier for all threads. -/
def State.initial : State T :=
  { mNotReady := Fintype.card T, mWaiting := 0, mReadyLock := none, mWaitingLock := none
    control := fun _ => .outside, calls := fun _ => 0 }

def State.goto (m : State T) (thread : T) (control : Control) : State T :=
  { m with control := Function.update m.control thread control }

inductive Step : State T → Label T → State T → Prop
  | call {m i} : m.control i = .outside →
    Step m (.call i)
      { m.goto i .lockReady with calls := Function.update m.calls i (m.calls i + 1) }
  | lockReady {m i} : m.control i = .lockReady → m.mReadyLock = none →
    Step m (.other i) { m.goto i .decrement with mReadyLock := some i }
  | decrement {m i} : m.control i = .decrement →
    Step m (.decrement i)
      { m.goto i (if m.mNotReady = 1 then .lastWaits else .lockWaiting) with
        mNotReady := Barrier.decrement m.mNotReady }
  | lastWaits {m i} : m.control i = .lastWaits → ¬ m.mWaiting > 0 →
    Step m (.other i) (m.goto i .reset)
  | reset {m i} : m.control i = .reset →
    Step m (.other i) { m.goto i .lastUnlocks with mNotReady := Fintype.card T }
  | lastUnlocks {m i} : m.control i = .lastUnlocks →
    Step m (.other i) { m.goto i .returns with mReadyLock := none }
  | lockWaiting {m i} : m.control i = .lockWaiting → m.mWaitingLock = none →
    Step m (.other i) { m.goto i .arrive with mWaitingLock := some i }
  | arrive {m i} : m.control i = .arrive →
    Step m (.other i) { m.goto i .unlockWaiting with mWaiting := m.mWaiting + 1 }
  | unlockWaiting {m i} : m.control i = .unlockWaiting →
    Step m (.other i) { m.goto i .unlockReady with mWaitingLock := none }
  | unlockReady {m i} : m.control i = .unlockReady →
    Step m (.other i) { m.goto i .spin with mReadyLock := none }
  | spin {m i} : m.control i = .spin → ¬ m.mNotReady > 0 →
    Step m (.other i) (m.goto i .lockLeave)
  | lockLeave {m i} : m.control i = .lockLeave → m.mWaitingLock = none →
    Step m (.other i) { m.goto i .leave with mWaitingLock := some i }
  | leave {m i} : m.control i = .leave →
    Step m (.leave i) { m.goto i .unlockLeave with mWaiting := Barrier.decrement m.mWaiting }
  | unlockLeave {m i} : m.control i = .unlockLeave →
    Step m (.other i) { m.goto i .returns with mWaitingLock := none }
  | returns {m i} : m.control i = .returns → Step m (.returns i) (m.goto i .outside)

/-! ## The locks -/

/-- Between taking and releasing `mReadyLock`. -/
def Control.holdsReady : Control → Bool
  | decrement | lastWaits | reset | lastUnlocks | lockWaiting | arrive | unlockWaiting
  | unlockReady => true
  | _ => false

/-- Between taking and releasing `mWaitingLock`. -/
def Control.holdsWaiting : Control → Bool
  | arrive | unlockWaiting | leave | unlockLeave => true
  | _ => false

/-- Only the owner of a lock is where threads hold it. -/
def Owned (holds : Control → Bool) (control : T → Control) (lock : Option T) : Prop :=
  ∀ i, holds (control i) = true → lock = some i

section
variable {holds : Control → Bool} {control : T → Control} {lock lock' : Option T} {i j : T}
  {c : Control}

omit [Fintype T] in
/-- A step of one thread keeps this if the thread owns the lock where it has to, and touches a lock
only if nobody else owns it. -/
theorem Owned.update (h : Owned holds control lock) (hself : holds c = true → lock' = some i)
    (hother : lock' = lock ∨ lock = none ∨ holds (control i) = true) :
    Owned holds (Function.update control i c) lock' := by
  intro j hj
  rcases eq_or_ne j i with rfl | hne
  · rw [Function.update_self] at hj
    exact hself hj
  · rw [Function.update_of_ne hne] at hj
    have hlock := h j hj
    rcases hother with heq | hnone | hi
    · rw [heq, hlock]
    · rw [hnone] at hlock
      cases hlock
    · rw [h i hi] at hlock
      exact absurd (Option.some.inj hlock).symm hne

omit [Fintype T] [DecidableEq T] in
theorem Owned.unique (h : Owned holds control lock) (hi : holds (control i) = true)
    (hj : holds (control j) = true) : i = j :=
  Option.some.inj ((h i hi).symm.trans (h j hj))

end

structure Locks (m : State T) : Prop where
  ready : Owned Control.holdsReady m.control m.mReadyLock
  waiting : Owned Control.holdsWaiting m.control m.mWaitingLock

variable {m m' : State T} {l : Label T} {i j : T} {r : Nat}

omit [DecidableEq T] in
theorem Locks.initial : Locks (State.initial : State T) :=
  ⟨nofun, nofun⟩

omit [Fintype T] in
/-- A step that touches neither lock. -/
theorem Locks.goto (h : Locks m) {c : Control}
    (hready : c.holdsReady = true → (m.control i).holdsReady = true)
    (hwaiting : c.holdsWaiting = true → (m.control i).holdsWaiting = true)
    (hm' : m'.control = Function.update m.control i c ∧ m'.mReadyLock = m.mReadyLock ∧
      m'.mWaitingLock = m.mWaitingLock) : Locks m' := by
  obtain ⟨hcontrol, hr, hw⟩ := hm'
  refine ⟨?_, ?_⟩
  · rw [hcontrol, hr]
    exact h.ready.update (fun hc => h.ready i (hready hc)) (.inl rfl)
  · rw [hcontrol, hw]
    exact h.waiting.update (fun hc => h.waiting i (hwaiting hc)) (.inl rfl)

omit [Fintype T] in
/-- A step that takes or releases `mReadyLock`. -/
theorem Locks.goto_ready (h : Locks m) {c : Control}
    (hready : c.holdsReady = true → m'.mReadyLock = some i)
    (hfree : m.mReadyLock = none ∨ (m.control i).holdsReady = true)
    (hwaiting : c.holdsWaiting = true → (m.control i).holdsWaiting = true)
    (hm' : m'.control = Function.update m.control i c ∧ m'.mWaitingLock = m.mWaitingLock) :
    Locks m' := by
  obtain ⟨hcontrol, hw⟩ := hm'
  refine ⟨?_, ?_⟩
  · rw [hcontrol]
    exact h.ready.update hready (.inr hfree)
  · rw [hcontrol, hw]
    exact h.waiting.update (fun hc => h.waiting i (hwaiting hc)) (.inl rfl)

omit [Fintype T] in
/-- A step that takes or releases `mWaitingLock`. -/
theorem Locks.goto_waiting (h : Locks m) {c : Control}
    (hwaiting : c.holdsWaiting = true → m'.mWaitingLock = some i)
    (hfree : m.mWaitingLock = none ∨ (m.control i).holdsWaiting = true)
    (hready : c.holdsReady = true → (m.control i).holdsReady = true)
    (hm' : m'.control = Function.update m.control i c ∧ m'.mReadyLock = m.mReadyLock) :
    Locks m' := by
  obtain ⟨hcontrol, hr⟩ := hm'
  refine ⟨?_, ?_⟩
  · rw [hcontrol, hr]
    exact h.ready.update (fun hc => h.ready i (hready hc)) (.inl rfl)
  · rw [hcontrol]
    exact h.waiting.update hwaiting (.inr hfree)

theorem Locks.step (h : Locks m) (hstep : Step m l m') : Locks m' := by
  cases hstep with
  | @call i hi =>
    refine h.goto (i := i) (c := .lockReady) ?_ ?_ ⟨rfl, rfl, rfl⟩ <;>
      simp [Control.holdsReady, Control.holdsWaiting]
  | @lockReady i hi hfree =>
    exact h.goto_ready (i := i) (c := .decrement) (fun _ => rfl) (.inl hfree)
      (by simp [Control.holdsWaiting]) ⟨rfl, rfl⟩
  | @decrement i hi =>
    refine h.goto (i := i) (fun _ => by rw [hi]; rfl) ?_ ⟨rfl, rfl, rfl⟩
    split <;> simp [Control.holdsWaiting]
  | @lastWaits i hi _ =>
    exact h.goto (i := i) (c := .reset) (fun _ => by rw [hi]; rfl)
      (by simp [Control.holdsWaiting]) ⟨rfl, rfl, rfl⟩
  | @reset i hi =>
    exact h.goto (i := i) (c := .lastUnlocks) (fun _ => by rw [hi]; rfl)
      (by simp [Control.holdsWaiting]) ⟨rfl, rfl, rfl⟩
  | @lastUnlocks i hi =>
    exact h.goto_ready (i := i) (c := .returns) (by simp [Control.holdsReady])
      (.inr (by rw [hi]; rfl)) (by simp [Control.holdsWaiting]) ⟨rfl, rfl⟩
  | @lockWaiting i hi hfree =>
    exact h.goto_waiting (i := i) (c := .arrive) (fun _ => rfl) (.inl hfree)
      (fun _ => by rw [hi]; rfl) ⟨rfl, rfl⟩
  | @arrive i hi =>
    exact h.goto (i := i) (c := .unlockWaiting) (fun _ => by rw [hi]; rfl)
      (fun _ => by rw [hi]; rfl) ⟨rfl, rfl, rfl⟩
  | @unlockWaiting i hi =>
    exact h.goto_waiting (i := i) (c := .unlockReady) (by simp [Control.holdsWaiting])
      (.inr (by rw [hi]; rfl)) (fun _ => by rw [hi]; rfl) ⟨rfl, rfl⟩
  | @unlockReady i hi =>
    exact h.goto_ready (i := i) (c := .spin) (by simp [Control.holdsReady])
      (.inr (by rw [hi]; rfl)) (by simp [Control.holdsWaiting]) ⟨rfl, rfl⟩
  | @spin i hi _ =>
    refine h.goto (i := i) (c := .lockLeave) ?_ ?_ ⟨rfl, rfl, rfl⟩ <;>
      simp [Control.holdsReady, Control.holdsWaiting]
  | @lockLeave i hi hfree =>
    exact h.goto_waiting (i := i) (c := .leave) (fun _ => rfl) (.inl hfree)
      (by simp [Control.holdsReady]) ⟨rfl, rfl⟩
  | @leave i hi =>
    exact h.goto (i := i) (c := .unlockLeave) (by simp [Control.holdsReady])
      (fun _ => by rw [hi]; rfl) ⟨rfl, rfl, rfl⟩
  | @unlockLeave i hi =>
    exact h.goto_waiting (i := i) (c := .returns) (by simp [Control.holdsWaiting])
      (.inr (by rw [hi]; rfl)) (by simp [Control.holdsReady]) ⟨rfl, rfl⟩
  | @returns i hi =>
    refine h.goto (i := i) (c := .outside) ?_ ?_ ⟨rfl, rfl, rfl⟩ <;>
      simp [Control.holdsReady, Control.holdsWaiting]

/-! ## Rounds -/

/-- Counted down in this round, and not yet free to leave. -/
def Control.arrived : Control → Bool
  | lockWaiting | arrive | unlockWaiting | unlockReady | spin => true
  | _ => false

/-- Counted by `mWaiting`. -/
def Control.counted : Control → Bool
  | unlockWaiting | unlockReady | spin | lockLeave | leave => true
  | _ => false

/-- Out of the spin loop, and still counted. -/
def Control.leaving : Control → Bool
  | lockLeave | leave => true
  | _ => false

/-- The last thread to arrive, before it sets the barrier back. -/
def Control.last : Control → Bool
  | lastWaits | reset => true
  | _ => false

/-- How often a thread at this place has called `await` in round `r`. -/
def Control.calls (r : Nat) (closed : Bool) : Control → Nat
  | outside | unlockLeave | returns | lastUnlocks => r + closed.toNat
  | lockReady => r + closed.toNat + 1
  | _ => r + 1

/-- The barrier has been set back `r` times. -/
structure InRound (m : State T) (r : Nat) : Prop where
  waiting : m.mWaiting = census m.control Control.counted
  calls : ∀ i, m.calls i = (m.control i).calls r (decide (m.mNotReady = 0))
  arrived : 0 < m.mNotReady → m.mNotReady + census m.control Control.arrived = Fintype.card T
  opened : 0 < m.mNotReady → ∀ i, (m.control i).leaving = false ∧ (m.control i).last = false
  closed : m.mNotReady = 0 → T → ∃ i, (m.control i).last = true
  reset : ∀ i, m.control i = .reset → m.mWaiting = 0

omit [DecidableEq T] in
theorem InRound.initial : InRound (State.initial : State T) 0 := by
  have hsize : T → Fintype.card T ≠ 0 := fun i => (Fintype.card_pos_iff.mpr ⟨i⟩).ne'
  refine ⟨?_, fun i => ?_, fun _ => ?_, fun _ i => ⟨rfl, rfl⟩, fun hzero i => ?_, nofun⟩
  · exact (census_const rfl).symm
  · simp [State.initial, Control.calls, hsize i]
  · simp only [State.initial]
    rw [census_const rfl, Nat.add_zero]
  · exact absurd hzero (hsize i)

theorem Control.holdsReady_of_last {c : Control} (h : c.last = true) : c.holdsReady = true := by
  cases c <;> simp_all [Control.last, Control.holdsReady]

omit [DecidableEq T] in
/-- While a thread holds `mReadyLock` before its decrement the barrier is open. -/
theorem InRound.open_of_lock (h : InRound m r) (hlocks : Locks m) (i : T)
    (hfree : m.mReadyLock = none ∨ (m.control i).holdsReady = true ∧ (m.control i).last = false) :
    0 < m.mNotReady := by
  rw [Nat.pos_iff_ne_zero]
  intro hzero
  obtain ⟨j, hj⟩ := h.closed hzero i
  have hjholds := Control.holdsReady_of_last hj
  rcases hfree with hnone | ⟨hi, hlast⟩
  · have := hlocks.ready j hjholds
    rw [hnone] at this
    cases this
  · obtain rfl := hlocks.ready.unique hi hjholds
    rw [hj] at hlast
    cases hlast

omit [DecidableEq T] in
theorem InRound.closed_of (h : InRound m r)
    (hi : (m.control i).leaving = true ∨ (m.control i).last = true) : m.mNotReady = 0 := by
  rcases Nat.eq_zero_or_pos m.mNotReady with hzero | hpos
  · exact hzero
  · obtain ⟨hleaving, hlast⟩ := h.opened hpos i
    rcases hi with hi | hi
    · rw [hleaving] at hi
      cases hi
    · rw [hlast] at hi
      cases hi

/-- A step within a round that leaves `mNotReady` as it is. -/
theorem InRound.goto (h : InRound m r) {c : Control}
    (hm' : m'.control = Function.update m.control i c ∧ m'.mNotReady = m.mNotReady)
    (hwaiting : m'.mWaiting = census m'.control Control.counted)
    (hself : m'.calls i = c.calls r (decide (m.mNotReady = 0)))
    (hother : ∀ j ≠ i, m'.calls j = m.calls j)
    (harrived : 0 < m.mNotReady → c.arrived = (m.control i).arrived ∧ c.leaving = false ∧
      c.last = false)
    (hlast : (m.control i).last = true → c.last = true)
    (hreset : ∀ j, m'.control j = .reset → m'.mWaiting = 0) : InRound m' r := by
  obtain ⟨hcontrol, hready⟩ := hm'
  have hi : m'.control i = c := by rw [hcontrol, Function.update_self]
  have hj : ∀ j ≠ i, m'.control j = m.control j := fun j hne => by
    rw [hcontrol, Function.update_of_ne hne]
  refine ⟨hwaiting, fun j => ?_, fun hpos => ?_, fun hpos j => ?_, fun hzero k => ?_, hreset⟩
  · rw [hready]
    rcases eq_or_ne j i with rfl | hne
    · rw [hi, hself]
    · rw [hj j hne, hother j hne]
      exact h.calls j
  · rw [hready] at hpos ⊢
    rw [hcontrol, census_update_of_eq (harrived hpos).1]
    exact h.arrived hpos
  · rw [hready] at hpos
    rcases eq_or_ne j i with rfl | hne
    · rw [hi]
      exact (harrived hpos).2
    · rw [hj j hne]
      exact h.opened hpos j
  · rw [hready] at hzero
    obtain ⟨j, hjlast⟩ := h.closed hzero k
    refine ⟨j, ?_⟩
    rcases eq_or_ne j i with rfl | hne
    · rw [hi]
      exact hlast hjlast
    · rwa [hj j hne]

/-- A step that touches no counter, from one place to another for which a thread has called `await`
as often. -/
theorem InRound.goto_same (h : InRound m r) {c : Control}
    (hm' : m'.control = Function.update m.control i c ∧ m'.mNotReady = m.mNotReady ∧
      m'.mWaiting = m.mWaiting ∧ m'.calls = m.calls)
    (hcounted : c.counted = (m.control i).counted)
    (hcalls : c.calls r (decide (m.mNotReady = 0)) =
      (m.control i).calls r (decide (m.mNotReady = 0)))
    (harrived : 0 < m.mNotReady → c.arrived = (m.control i).arrived ∧ c.leaving = false ∧
      c.last = false)
    (hlast : (m.control i).last = true → c.last = true) (hreset : c = .reset → m.mWaiting = 0) :
    InRound m' r := by
  obtain ⟨hcontrol, hready, hwaiting, hm'calls⟩ := hm'
  refine h.goto ⟨hcontrol, hready⟩ ?_ ?_ ?_ harrived hlast fun j hj => ?_
  · rw [hwaiting, hcontrol, census_update_of_eq hcounted]
    exact h.waiting
  · rw [hm'calls, hcalls]
    exact h.calls i
  · intro j _
    rw [hm'calls]
  · rw [hwaiting]
    rw [hcontrol] at hj
    rcases eq_or_ne j i with rfl | hne
    · rw [Function.update_self] at hj
      exact hreset hj
    · rw [Function.update_of_ne hne] at hj
      exact h.reset j hj

/-- The last thread to arrive closes the barrier. -/
theorem InRound.decrement (h : InRound m r) (hlocks : Locks m) (hi : m.control i = .decrement) :
    InRound { m.goto i (if m.mNotReady = 1 then .lastWaits else .lockWaiting) with
      mNotReady := Barrier.decrement m.mNotReady } r := by
  have hpos : 0 < m.mNotReady :=
    h.open_of_lock hlocks i (.inr ⟨by rw [hi]; rfl, by rw [hi]; rfl⟩)
  have hcount := h.arrived hpos
  have hdec : Barrier.decrement m.mNotReady = m.mNotReady - 1 := if_neg hpos.ne'
  have hnotArrived : (m.control i).arrived = false := by rw [hi]; rfl
  have hcallsSelf := h.calls i
  rw [hi] at hcallsSelf
  have hreset : ∀ c, c ≠ .reset → ∀ j, Function.update m.control i c j = .reset →
      m.mWaiting = 0 := by
    intro c hc j hj
    rcases eq_or_ne j i with rfl | hne
    · rw [Function.update_self] at hj
      exact absurd hj hc
    · rw [Function.update_of_ne hne] at hj
      exact h.reset j hj
  rcases eq_or_ne m.mNotReady 1 with hone | hmany
  · rw [if_pos hone, hdec, hone]
    have hothers : ∀ j ≠ i, (m.control j).arrived = true :=
      fun j hne => of_census_add_one_eq_card (by omega) hnotArrived hne
    refine ⟨?_, fun j => ?_, fun hlt => absurd hlt (by simp), fun hlt => absurd hlt (by simp),
      fun _ _ => ⟨i, ?_⟩, hreset _ (by simp)⟩
    · simp only [State.goto]
      rw [census_update_of_eq (by rw [hi]; rfl)]
      exact h.waiting
    · rcases eq_or_ne j i with rfl | hne
      · simpa [State.goto, Control.calls] using hcallsSelf
      · -- an arrived thread has called `await` for this round, open or closed
        have harrived := hothers j hne
        have hcalls := h.calls j
        simp only [State.goto, Function.update_of_ne hne]
        rw [hcalls]
        cases hj : m.control j <;> simp_all [Control.arrived, Control.calls]
    · simp [State.goto, Control.last]
  · rw [if_neg hmany, hdec]
    have hstill : ¬ m.mNotReady - 1 = 0 := by omega
    refine ⟨?_, fun j => ?_, fun _ => ?_, fun _ j => ?_, fun hzero => absurd hzero hstill,
      hreset _ (by simp)⟩
    · simp only [State.goto]
      rw [census_update_of_eq (by rw [hi]; rfl)]
      exact h.waiting
    · rcases eq_or_ne j i with rfl | hne
      · simpa [State.goto, Control.calls] using hcallsSelf
      · simpa [State.goto, Function.update_of_ne hne, hstill, hpos.ne'] using h.calls j
    · simp only [State.goto]
      rw [census_update_enter hnotArrived rfl]
      omega
    · rcases eq_or_ne j i with rfl | hne
      · simp [State.goto, Control.leaving, Control.last]
      · simpa [State.goto, Function.update_of_ne hne] using h.opened hpos j

/-- Setting the barrier back starts the next round. All other threads have left, so each is either
outside or waits for `mReadyLock`. -/
theorem InRound.setBack (h : InRound m r) (hlocks : Locks m) (hi : m.control i = .reset) :
    InRound { m.goto i .lastUnlocks with mNotReady := Fintype.card T } (r + 1) := by
  have hclosed : m.mNotReady = 0 := h.closed_of (i := i) (.inr (by rw [hi]; rfl))
  have hwaiting := h.reset i hi
  have hcounted : ∀ j, (m.control j).counted = false :=
    census_eq_zero_iff.mp (h.waiting.symm.trans hwaiting)
  have hholds : ∀ j ≠ i, (m.control j).holdsReady = false := by
    intro j hne
    rw [Bool.eq_false_iff]
    exact fun hj => hne (hlocks.ready.unique hj (by rw [hi]; rfl))
  have hsize : Fintype.card T ≠ 0 := (Fintype.card_pos_iff.mpr ⟨i⟩).ne'
  have hquiet : ∀ j, (Function.update m.control i .lastUnlocks j).arrived = false ∧
      (Function.update m.control i .lastUnlocks j).leaving = false ∧
      (Function.update m.control i .lastUnlocks j).last = false := by
    intro j
    rcases eq_or_ne j i with rfl | hne
    · rw [Function.update_self]
      exact ⟨rfl, rfl, rfl⟩
    · have hj := hcounted j
      have hj' := hholds j hne
      rw [Function.update_of_ne hne]
      cases hc : m.control j <;> simp_all [Control.arrived, Control.leaving, Control.last,
        Control.counted, Control.holdsReady]
  refine ⟨?_, fun j => ?_, fun _ => ?_, fun _ j => (hquiet j).2,
    fun hzero => absurd hzero hsize, fun j hj => ?_⟩
  · simp only [State.goto]
    rw [census_update_of_eq (by rw [hi]; rfl)]
    exact h.waiting
  · have hcalls := h.calls j
    rcases eq_or_ne j i with rfl | hne
    · simpa [State.goto, Control.calls, hi, hsize] using hcalls
    · have hj := hcounted j
      have hj' := hholds j hne
      simp only [State.goto, Function.update_of_ne hne]
      rw [hcalls]
      cases hc : m.control j <;> simp_all [Control.calls, Control.counted, Control.holdsReady]
  · simp only [State.goto]
    rw [census_eq_zero_iff.mpr fun j => (hquiet j).1, Nat.add_zero]
  · exact hwaiting

theorem InRound.arrive (h : InRound m r) (hlocks : Locks m) (hi : m.control i = .arrive) :
    InRound { m.goto i .unlockWaiting with mWaiting := m.mWaiting + 1 } r := by
  have hcalls := h.calls i
  rw [hi] at hcalls
  refine h.goto (i := i) ⟨rfl, rfl⟩ ?_ hcalls (fun _ _ => rfl) ?_ ?_ fun j hj => ?_
  · simp only [State.goto]
    rw [census_update_enter (by rw [hi]; rfl) rfl, h.waiting]
  · exact fun _ => ⟨by rw [hi]; rfl, rfl, rfl⟩
  · rw [hi]
    exact fun hlast => hlast
  · -- the thread that sets the barrier back holds `mReadyLock` then
    rcases eq_or_ne j i with rfl | hne
    · simp [State.goto] at hj
    · simp only [State.goto, Function.update_of_ne hne] at hj
      exact absurd (hlocks.ready.unique (i := j) (j := i) (by rw [hj]; rfl) (by rw [hi]; rfl)) hne

theorem InRound.leave (h : InRound m r) (hi : m.control i = .leave) :
    0 < m.mWaiting ∧
      InRound { m.goto i .unlockLeave with mWaiting := Barrier.decrement m.mWaiting } r := by
  have hclosed : m.mNotReady = 0 := h.closed_of (i := i) (.inl (by rw [hi]; rfl))
  have hcounted : (m.control i).counted = true := by rw [hi]; rfl
  have hpos : 0 < m.mWaiting := h.waiting ▸ census_pos hcounted
  have hcalls := h.calls i
  rw [hi] at hcalls
  refine ⟨hpos, h.goto (i := i) (c := .unlockLeave) ⟨rfl, rfl⟩ ?_ ?_ (fun _ _ => rfl) ?_ ?_
    fun j hj => ?_⟩
  · have hleave := census_update_leave (f := m.control) (a := Control.unlockLeave) hcounted rfl
    have hdec : Barrier.decrement m.mWaiting = m.mWaiting - 1 := if_neg hpos.ne'
    rw [← h.waiting] at hleave
    simp only [State.goto, hdec]
    omega
  · rw [show Control.calls r _ .unlockLeave = _ from rfl, hclosed]
    exact hcalls
  · exact fun hlt => absurd hclosed hlt.ne'
  · rw [hi]
    exact fun hlast => by cases hlast
  · rcases eq_or_ne j i with rfl | hne
    · simp [State.goto] at hj
    · simp only [State.goto, Function.update_of_ne hne] at hj
      have := h.reset j hj
      omega

/-- A step keeps the round, or starts the next one. -/
theorem InRound.step (h : InRound m r) (hlocks : Locks m) (hstep : Step m l m') :
    InRound m' r ∨ InRound m' (r + 1) := by
  cases hstep with
  | @call i hi =>
    have hcalls := h.calls i
    rw [hi] at hcalls
    refine .inl (h.goto (i := i) (c := .lockReady) ⟨rfl, rfl⟩ ?_ ?_ ?_ ?_ ?_ fun j hj => ?_)
    · simp only [State.goto]
      rw [census_update_of_eq (by rw [hi]; rfl)]
      exact h.waiting
    · simp [hcalls, Control.calls]
    · exact fun j hne => Function.update_of_ne hne ..
    · exact fun _ => ⟨by rw [hi]; rfl, rfl, rfl⟩
    · simp [hi, Control.last]
    · rcases eq_or_ne j i with rfl | hne
      · simp [State.goto] at hj
      · simp only [State.goto, Function.update_of_ne hne] at hj
        exact h.reset j hj
  | @lockReady i hi hfree =>
    have hpos := h.open_of_lock hlocks i (.inl hfree)
    refine .inl (h.goto_same (i := i) (c := .decrement) ⟨rfl, rfl, rfl, rfl⟩ ?_ ?_ ?_ ?_ ?_) <;>
      simp [hi, hpos.ne', Control.counted, Control.calls, Control.arrived, Control.leaving,
        Control.last]
  | @decrement i hi => exact .inl (h.decrement hlocks hi)
  | @lastWaits i hi hfree =>
    have hclosed : m.mNotReady = 0 := h.closed_of (i := i) (.inr (by rw [hi]; rfl))
    refine .inl (h.goto_same (i := i) (c := .reset) ⟨rfl, rfl, rfl, rfl⟩ ?_ ?_ ?_ ?_ ?_)
    · simp [hi, Control.counted]
    · simp [hi, Control.calls]
    · exact fun hlt => absurd hclosed hlt.ne'
    · exact fun _ => rfl
    · exact fun _ => Nat.eq_zero_of_not_pos hfree
  | @reset i hi => exact .inr (h.setBack hlocks hi)
  | @lastUnlocks i hi =>
    refine .inl (h.goto_same (i := i) (c := .returns) ⟨rfl, rfl, rfl, rfl⟩ ?_ ?_ ?_ ?_ ?_) <;>
      simp [hi, Control.counted, Control.calls, Control.arrived, Control.leaving, Control.last]
  | @lockWaiting i hi hfree =>
    refine .inl (h.goto_same (i := i) (c := .arrive) ⟨rfl, rfl, rfl, rfl⟩ ?_ ?_ ?_ ?_ ?_) <;>
      simp [hi, Control.counted, Control.calls, Control.arrived, Control.leaving, Control.last]
  | @arrive i hi => exact .inl (h.arrive hlocks hi)
  | @unlockWaiting i hi =>
    refine .inl (h.goto_same (i := i) (c := .unlockReady) ⟨rfl, rfl, rfl, rfl⟩ ?_ ?_ ?_ ?_ ?_) <;>
      simp [hi, Control.counted, Control.calls, Control.arrived, Control.leaving, Control.last]
  | @unlockReady i hi =>
    refine .inl (h.goto_same (i := i) (c := .spin) ⟨rfl, rfl, rfl, rfl⟩ ?_ ?_ ?_ ?_ ?_) <;>
      simp [hi, Control.counted, Control.calls, Control.arrived, Control.leaving, Control.last]
  | @spin i hi hzero =>
    refine .inl (h.goto_same (i := i) (c := .lockLeave) ⟨rfl, rfl, rfl, rfl⟩ ?_ ?_ ?_ ?_ ?_)
    · simp [hi, Control.counted]
    · simp [hi, Control.calls]
    · exact fun hpos => absurd hpos hzero
    · simp [hi, Control.last]
    · simp
  | @lockLeave i hi hfree =>
    have hclosed : m.mNotReady = 0 := h.closed_of (i := i) (.inl (by rw [hi]; rfl))
    refine .inl (h.goto_same (i := i) (c := .leave) ⟨rfl, rfl, rfl, rfl⟩ ?_ ?_ ?_ ?_ ?_) <;>
      simp [hi, hclosed, Control.counted, Control.calls, Control.last]
  | @leave i hi => exact .inl (h.leave hi).2
  | @unlockLeave i hi =>
    refine .inl (h.goto_same (i := i) (c := .returns) ⟨rfl, rfl, rfl, rfl⟩ ?_ ?_ ?_ ?_ ?_) <;>
      simp [hi, Control.counted, Control.calls, Control.arrived, Control.leaving, Control.last]
  | @returns i hi =>
    refine .inl (h.goto_same (i := i) (c := .outside) ⟨rfl, rfl, rfl, rfl⟩ ?_ ?_ ?_ ?_ ?_) <;>
      simp [hi, Control.counted, Control.calls, Control.arrived, Control.leaving, Control.last]

theorem inRound_of_run {ls : List (Label T)} (hrun : Run Step .initial ls m) :
    Locks m ∧ ∃ r, InRound m r := by
  refine hrun.invariant (motive := fun m => Locks m ∧ ∃ r, InRound m r)
    ⟨Locks.initial, 0, InRound.initial⟩ ?_
  intro m l m' ⟨hlocks, r, h⟩ hstep
  refine ⟨hlocks.step hstep, ?_⟩
  rcases h.step hlocks hstep with h' | h'
  · exact ⟨r, h'⟩
  · exact ⟨r + 1, h'⟩

/-! ## Safety -/

/-- A thread has called `await` for the rounds before, and for at most one round more. -/
theorem Control.calls_bounds (r : Nat) (closed : Bool) (c : Control) (hc : closed = true →
    c ≠ .decrement) : r + closed.toNat ≤ c.calls r closed ∧
      c.calls r closed ≤ r + closed.toNat + 1 := by
  cases closed <;> cases c <;> simp_all [Control.calls]

/-- In every run: no thread returns from a call of `await` before all threads have made theirs;
`mNotReady` is counted down only when it is not 0, and when all that wait in the round before have
left; `mWaiting` is counted down only when it is not 0; and no thread is two calls ahead. -/
theorem barrier_safe {ls : List (Label T)} (hrun : Run Step .initial ls m) :
    (∀ i m', Step m (.returns i) m' → ∀ j, m.calls i ≤ m.calls j) ∧
      (∀ i m', Step m (.decrement i) m' → 0 < m.mNotReady ∧
        (m.mNotReady = Fintype.card T → m.mWaiting = 0) ∧
        ∀ j, (m.control j).counted = true → m.calls j = m.calls i) ∧
      (∀ i m', Step m (.leave i) m' → 0 < m.mWaiting) ∧
      ∀ i j, m.calls i ≤ m.calls j + 1 := by
  obtain ⟨hlocks, r, h⟩ := inRound_of_run hrun
  have hdecrement : ∀ j, decide (m.mNotReady = 0) = true → m.control j ≠ .decrement := by
    intro j hzero hj
    have := h.open_of_lock hlocks j (.inr ⟨by rw [hj]; rfl, by rw [hj]; rfl⟩)
    simp at hzero
    omega
  have hbounds : ∀ j, r + (decide (m.mNotReady = 0)).toNat ≤ m.calls j ∧
      m.calls j ≤ r + (decide (m.mNotReady = 0)).toNat + 1 := fun j =>
    h.calls j ▸ Control.calls_bounds r _ (m.control j) (hdecrement j)
  refine ⟨fun i m' hstep j => ?_, fun i m' hstep => ?_, fun i m' hstep => ?_, fun i j => ?_⟩
  · cases hstep with
    | returns hi =>
      have hcalls := h.calls i
      rw [hi] at hcalls
      exact hcalls.trans_le (hbounds j).1
  · cases hstep with
    | decrement hi =>
      have hpos := h.open_of_lock hlocks i (.inr ⟨by rw [hi]; rfl, by rw [hi]; rfl⟩)
      have hcount := h.arrived hpos
      refine ⟨hpos, fun hfull => ?_, fun j hj => ?_⟩
      · -- nobody has arrived yet, so nobody is counted
        have hzero : census m.control Control.arrived = 0 := by omega
        rw [h.waiting, census_eq_zero_iff]
        intro j
        have harrived := census_eq_zero_iff.mp hzero j
        have hleaving := (h.opened hpos j).1
        cases hc : m.control j <;> simp_all [Control.arrived, Control.leaving, Control.counted]
      · have hcalls := h.calls i
        rw [hi] at hcalls
        rw [hcalls, h.calls j]
        cases hc : m.control j <;> simp_all [Control.counted, Control.calls]
  · cases hstep with
    | leave hi => exact (h.leave hi).1
  · have hi := (hbounds i).2
    have hj := (hbounds j).1
    omega

/-- Two threads: the first waits for the second and is about to return. -/
theorem barrier_safe_two : ∃ (m : State (Fin 2)) (ls : _), Run Step .initial ls m ∧
    m.control 0 = .returns ∧ m.calls 0 ≤ m.calls 1 := by
  have hrun₁ : Run Step (.initial : State (Fin 2)) [.call 0] _ := .single (.call rfl)
  have hrun₂ := hrun₁.snoc (l := Label.other 0) (.lockReady rfl rfl)
  have hrun₃ := hrun₂.snoc (l := Label.decrement 0) (.decrement rfl)
  have hrun₄ := hrun₃.snoc (l := Label.other 0) (.lockWaiting rfl rfl)
  have hrun₅ := hrun₄.snoc (l := Label.other 0) (.arrive rfl)
  have hrun₆ := hrun₅.snoc (l := Label.other 0) (.unlockWaiting rfl)
  have hrun₇ := hrun₆.snoc (l := Label.other 0) (.unlockReady rfl)
  -- the second thread is the last to arrive, and lets the first one leave
  have hrun₈ := hrun₇.snoc (l := Label.call 1) (.call rfl)
  have hrun₉ := hrun₈.snoc (l := Label.other 1) (.lockReady rfl rfl)
  have hrun₁₀ := hrun₉.snoc (l := Label.decrement 1) (.decrement rfl)
  have hrun₁₁ := hrun₁₀.snoc (l := Label.other 0) (.spin rfl (by decide))
  have hrun₁₂ := hrun₁₁.snoc (l := Label.other 0) (.lockLeave rfl rfl)
  have hrun₁₃ := hrun₁₂.snoc (l := Label.leave 0) (.leave rfl)
  have hrun₁₄ := hrun₁₃.snoc (l := Label.other 0) (.unlockLeave rfl)
  exact ⟨_, _, hrun₁₄, rfl, (barrier_safe hrun₁₄).1 0 _ (.returns rfl) 1⟩

end Barrier
end CyPhOS
