import CyPhOS.Sync.Barrier

/-! # The barrier lets its threads go

A thread spins in `await` for three things: a lock, the other threads, and, if it is the last, those
that have not left yet. A lock that is taken is held by a thread (`Held`), so somebody can go on
unless all threads that have called `await` wait for one that has not (`barrier_progress`). Each step
takes a thread nearer to its return (`Control.remaining`), so that no call takes more than 11 of
them.
-/

namespace CyPhOS

open Transition Census

namespace Barrier

variable {T : Type} [DecidableEq T] [Fintype T]

/-- A lock that is taken is held by a thread. -/
structure Held (m : State T) : Prop where
  ready : ∀ i, m.mReadyLock = some i → (m.control i).holdsReady = true
  waiting : ∀ i, m.mWaitingLock = some i → (m.control i).holdsWaiting = true

variable {m m' : State T} {l : Label T} {ls : List (Label T)} {i j : T} {r : Nat}

omit [Fintype T] in
/-- A step of one thread leaves a lock alone, takes it, or lets it go. -/
theorem holder_update {holds : Control → Bool} {control : T → Control} {lock lock' : Option T}
    {c : Control} (h : ∀ j, lock = some j → holds (control j) = true)
    (hlock : lock' = lock ∧ (holds (control i) = true → holds c = true) ∨
      lock' = some i ∧ holds c = true ∨ lock' = none)
    (j : T) (hj : lock' = some j) : holds (Function.update control i c j) = true := by
  rcases eq_or_ne j i with rfl | hne
  · rw [Function.update_self]
    rcases hlock with ⟨heq, hkeep⟩ | ⟨-, hc⟩ | hnone
    · exact hkeep (h j (heq ▸ hj))
    · exact hc
    · rw [hnone] at hj
      cases hj
  · rw [Function.update_of_ne hne]
    rcases hlock with ⟨heq, -⟩ | ⟨hsome, -⟩ | hnone
    · exact h j (heq ▸ hj)
    · rw [hsome] at hj
      exact absurd (Option.some.inj hj).symm hne
    · rw [hnone] at hj
      cases hj

theorem Held.step (h : Held m) (hstep : Step m l m') : Held m' := by
  cases hstep with
  | @lockReady i hi hfree =>
    exact ⟨holder_update h.ready (.inr (.inl ⟨rfl, rfl⟩)),
      holder_update h.waiting (.inl ⟨rfl, by simp [hi, Control.holdsWaiting]⟩)⟩
  | @lastUnlocks i hi | @unlockReady i hi =>
    exact ⟨holder_update h.ready (.inr (.inr rfl)),
      holder_update h.waiting (.inl ⟨rfl, by simp [hi, Control.holdsWaiting]⟩)⟩
  | @lockWaiting i hi hfree | @lockLeave i hi hfree =>
    exact ⟨holder_update h.ready (.inl ⟨rfl, by simp [hi, Control.holdsReady]⟩),
      holder_update h.waiting (.inr (.inl ⟨rfl, rfl⟩))⟩
  | @unlockWaiting i hi | @unlockLeave i hi =>
    exact ⟨holder_update h.ready (.inl ⟨rfl, by simp [hi, Control.holdsReady]⟩),
      holder_update h.waiting (.inr (.inr rfl))⟩
  | @decrement i hi =>
    refine ⟨holder_update h.ready (.inl ⟨rfl, fun _ => ?_⟩),
      holder_update h.waiting (.inl ⟨rfl, by simp [hi, Control.holdsWaiting]⟩)⟩
    split <;> rfl
  | @call i hi | @lastWaits i hi | @reset i hi | @arrive i hi | @spin i hi | @leave i hi
  | @returns i hi =>
    exact ⟨holder_update h.ready (.inl ⟨rfl, by simp [hi, Control.holdsReady]⟩),
      holder_update h.waiting (.inl ⟨rfl, by simp [hi, Control.holdsWaiting]⟩)⟩

/-! ## Somebody can go on -/

/-- The thread that takes the step. -/
def Label.thread : Label T → T
  | call i | decrement i | leave i | returns i | other i => i

/-- The thread is in `await` and can take a step. -/
def CanStep (m : State T) (i : T) : Prop :=
  m.control i ≠ .outside ∧ ∃ l m', Step m l m' ∧ l.thread = i

/-- Where a thread may have to wait. -/
def Control.waits : Control → Bool
  | outside | lockReady | lastWaits | lockWaiting | spin | lockLeave => true
  | _ => false

theorem canStep_of_not_waits (h : (m.control i).waits = false) : CanStep m i := by
  cases hi : m.control i with
  | outside | lockReady | lastWaits | lockWaiting | spin | lockLeave =>
    rw [hi] at h
    cases h
  | decrement => exact ⟨by simp [hi], _, _, .decrement hi, rfl⟩
  | reset => exact ⟨by simp [hi], _, _, .reset hi, rfl⟩
  | lastUnlocks => exact ⟨by simp [hi], _, _, .lastUnlocks hi, rfl⟩
  | arrive => exact ⟨by simp [hi], _, _, .arrive hi, rfl⟩
  | unlockWaiting => exact ⟨by simp [hi], _, _, .unlockWaiting hi, rfl⟩
  | unlockReady => exact ⟨by simp [hi], _, _, .unlockReady hi, rfl⟩
  | leave => exact ⟨by simp [hi], _, _, .leave hi, rfl⟩
  | unlockLeave => exact ⟨by simp [hi], _, _, .unlockLeave hi, rfl⟩
  | returns => exact ⟨by simp [hi], _, _, .returns hi, rfl⟩

/-- If nobody can go on, those in `await` spin until the others arrive. -/
theorem Held.spin_of_stuck (hheld : Held m) (h : InRound m r) (hstuck : ∀ j, ¬ CanStep m j) (i : T) :
    m.control i = .outside ∨ m.control i = .spin ∧ 0 < m.mNotReady := by
  have hwaits : ∀ j, (m.control j).waits = true := fun j =>
    (Bool.eq_false_or_eq_true _).resolve_right fun hj => hstuck j (canStep_of_not_waits hj)
  -- nobody is where a thread holds `mWaitingLock`
  have hwaitingLock : m.mWaitingLock = none := by
    rw [Option.eq_none_iff_forall_ne_some]
    intro j hj
    have hholds := hheld.waiting j hj
    have hw := hwaits j
    cases hc : m.control j <;> simp_all [Control.holdsWaiting, Control.waits]
  have hspin : ∀ j, m.control j = .spin → 0 < m.mNotReady := fun j hj => by
    by_contra hzero
    exact hstuck j ⟨by simp [hj], _, _, .spin hj hzero, rfl⟩
  have hlockWaiting : ∀ j, m.control j ≠ .lockWaiting := fun j hj =>
    hstuck j ⟨by simp [hj], _, _, .lockWaiting hj hwaitingLock, rfl⟩
  have hlockLeave : ∀ j, m.control j ≠ .lockLeave := fun j hj =>
    hstuck j ⟨by simp [hj], _, _, .lockLeave hj hwaitingLock, rfl⟩
  -- the last thread waits for one that spins, which can leave
  have hlast : ∀ j, m.control j ≠ .lastWaits := by
    intro j hj
    have hzero := h.closed_of (i := j) (.inr (by rw [hj]; rfl))
    refine hstuck j ⟨by simp [hj], _, _, .lastWaits hj ?_, rfl⟩
    rw [h.waiting, Nat.not_lt, Nat.le_zero, census_eq_zero_iff]
    intro k
    have hk := hspin k
    have hw := hwaits k
    have hleave := hlockLeave k
    cases hc : m.control k <;> simp_all [Control.counted, Control.waits]
  have hreadyLock : m.mReadyLock = none := by
    rw [Option.eq_none_iff_forall_ne_some]
    intro j hj
    have hholds := hheld.ready j hj
    have hw := hwaits j
    have hwait := hlockWaiting j
    have hlast' := hlast j
    cases hc : m.control j <;> simp_all [Control.holdsReady, Control.waits]
  cases hc : m.control i with
  | outside => exact .inl rfl
  | spin => exact .inr ⟨rfl, hspin i hc⟩
  | lockReady => exact absurd ⟨by simp [hc], _, _, .lockReady hc hreadyLock, rfl⟩ (hstuck i)
  | lastWaits => exact absurd hc (hlast i)
  | lockWaiting => exact absurd hc (hlockWaiting i)
  | lockLeave => exact absurd hc (hlockLeave i)
  | _ => simpa [hc, Control.waits] using hwaits i

/-- Then somebody has not called `await` for this round. -/
theorem Held.outside_of_stuck (hheld : Held m) (h : InRound m r) (hstuck : ∀ j, ¬ CanStep m j)
    (hi : m.control i ≠ .outside) :
    m.control i = .spin ∧ ∃ j, m.control j = .outside ∧ m.calls j < m.calls i := by
  obtain ⟨hspin, hpos⟩ := (hheld.spin_of_stuck h hstuck i).resolve_left hi
  have hcount := h.arrived hpos
  obtain ⟨j, hj⟩ : ∃ j, (m.control j).arrived = false := by
    by_contra hall
    simp only [not_exists, Bool.not_eq_false] at hall
    have hnone : census m.control (fun c => !c.arrived) = 0 :=
      census_eq_zero_iff.mpr fun j => by simp [hall j]
    have hfull := census_add_not m.control Control.arrived
    omega
  have hout : m.control j = .outside := by
    refine (hheld.spin_of_stuck h hstuck j).resolve_right ?_
    rintro ⟨hj', -⟩
    rw [hj'] at hj
    cases hj
  refine ⟨hspin, j, hout, ?_⟩
  rw [h.calls j, h.calls i, hout, hspin]
  simp [Control.calls, hpos.ne']

/-! ## How many steps a call takes -/

/-- The steps that a thread has to take at most until it returns. -/
def Control.remaining : Control → Nat
  | outside => 0
  | returns => 1
  | unlockLeave | lastUnlocks => 2
  | leave | reset => 3
  | lockLeave | lastWaits => 4
  | spin => 5
  | unlockReady => 6
  | unlockWaiting => 7
  | arrive => 8
  | lockWaiting => 9
  | decrement => 10
  | lockReady => 11

/-- A step of the thread in `await`. -/
def Label.worksFor (thread : T) : Label T → Bool
  | call _ => false
  | decrement i | leave i | returns i | other i => i = thread

theorem remaining_of_call (hstep : Step m (.call i) m') : (m'.control i).remaining = 11 := by
  cases hstep
  simp [State.goto, Control.remaining]

/-- A step of another thread leaves what a thread has to do, and one of its own leaves less. -/
theorem remaining_step (hstep : Step m l m') (hcall : l ≠ .call i) :
    (m'.control i).remaining + (if l.worksFor i then 1 else 0) ≤ (m.control i).remaining := by
  cases hstep with
  | @call j hj =>
    have hne : i ≠ j := by
      rintro rfl
      exact hcall rfl
    simp [State.goto, hne, Label.worksFor]
  | @decrement j hj =>
    rcases eq_or_ne i j with rfl | hne
    · by_cases hlast : m.mNotReady = 1 <;>
        simp [State.goto, hj, hlast, Control.remaining, Label.worksFor]
    · simp [State.goto, hne, hne.symm, Label.worksFor]
  | @lockReady j hj | @lastWaits j hj | @reset j hj | @lastUnlocks j hj | @lockWaiting j hj
  | @arrive j hj | @unlockWaiting j hj | @unlockReady j hj | @spin j hj | @lockLeave j hj
  | @leave j hj | @unlockLeave j hj | @returns j hj =>
    rcases eq_or_ne i j with rfl | hne
    · simp [State.goto, hj, Control.remaining, Label.worksFor]
    · simp [State.goto, hne, hne.symm, Label.worksFor]

theorem remaining_of_run (hrun : Run Step m ls m') (hcall : .call i ∉ ls) :
    ls.countP (Label.worksFor i) + (m'.control i).remaining ≤ (m.control i).remaining := by
  induction hrun with
  | nil => simp
  | snoc _ hstep ih =>
    simp only [List.mem_append, List.mem_singleton, not_or] at hcall
    have hbefore := ih hcall.1
    have hremaining := remaining_step hstep (Ne.symm hcall.2)
    rw [List.countP_append, List.countP_singleton]
    omega

/-! ## Phases -/

/-- Who is between two calls has made as many as any other, or one less than one that has made the
next; all that are between two calls have made the same number. -/
theorem calls_of_outside (hrun : Run Step .initial ls m) (hi : m.control i = .outside) (j : T) :
    m.calls i ≤ m.calls j ∧ m.calls j ≤ m.calls i + 1 ∧
      (m.control j = .outside → m.calls j = m.calls i) := by
  obtain ⟨-, r, h⟩ := inRound_of_run hrun
  have hcalls := h.calls i
  rw [hi] at hcalls
  rw [hcalls, h.calls j]
  refine ⟨?_, ?_, fun hj => by rw [hj]⟩ <;>
    cases decide (m.mNotReady = 0) <;> cases m.control j <;> simp [Control.calls]

theorem calls_le (hrun : Run Step .initial ls m) (i j : T) : m.calls i ≤ m.calls j + 1 := by
  obtain ⟨-, r, h⟩ := inRound_of_run hrun
  have hbounds : ∀ c : Control, r + (decide (m.mNotReady = 0)).toNat ≤
      c.calls r (decide (m.mNotReady = 0)) ∧ c.calls r (decide (m.mNotReady = 0)) ≤
        r + (decide (m.mNotReady = 0)).toNat + 1 := by
    intro c
    cases decide (m.mNotReady = 0) <;> cases c <;> simp [Control.calls]
  have hi := (hbounds (m.control i)).2
  have hj := (hbounds (m.control j)).1
  rw [h.calls i, h.calls j]
  omega

/-- In every run: if a thread is in `await`, some thread in `await` can go on, or the thread spins
and another one has still to make its call. And of each call a thread makes 11 steps at most, so that
the threads stop only there. -/
theorem barrier_progress (hrun : Run Step .initial ls m) :
    (∀ i, m.control i ≠ .outside → (∃ j, CanStep m j) ∨
      m.control i = .spin ∧ ∃ j, m.control j = .outside ∧ m.calls j < m.calls i) ∧
      ∀ i before since, ls = before ++ .call i :: since → .call i ∉ since →
        since.countP (Label.worksFor i) + (m.control i).remaining ≤ 11 := by
  obtain ⟨-, r, h⟩ := inRound_of_run hrun
  have hheld : Held m :=
    hrun.invariant (motive := Held) ⟨by simp [State.initial], by simp [State.initial]⟩
      fun h hstep => h.step hstep
  refine ⟨fun i hi => ?_, ?_⟩
  · by_cases hstuck : ∃ j, CanStep m j
    · exact .inl hstuck
    · exact .inr (hheld.outside_of_stuck h (not_exists.mp hstuck) hi)
  · rintro i before since rfl hcall
    obtain ⟨m₁, -, hsince⟩ := run_append_iff.mp hrun
    obtain ⟨m₂, hstep, hrest⟩ := run_cons_iff.mp hsince
    rw [← remaining_of_call hstep]
    exact remaining_of_run hrest hcall

/-! ## Running the machine -/

/-- What the step of a thread that is not a counted one comes to. -/
def State.otherStep (m : State T) (i : T) : Option (State T) :=
  match m.control i with
  | .lockReady =>
    if m.mReadyLock = none then some { m.goto i .decrement with mReadyLock := some i } else none
  | .lastWaits => if ¬ m.mWaiting > 0 then some (m.goto i .reset) else none
  | .reset => some { m.goto i .lastUnlocks with mNotReady := Fintype.card T }
  | .lastUnlocks => some { m.goto i .returns with mReadyLock := none }
  | .lockWaiting =>
    if m.mWaitingLock = none then some { m.goto i .arrive with mWaitingLock := some i } else none
  | .arrive => some { m.goto i .unlockWaiting with mWaiting := m.mWaiting + 1 }
  | .unlockWaiting => some { m.goto i .unlockReady with mWaitingLock := none }
  | .unlockReady => some { m.goto i .spin with mReadyLock := none }
  | .spin => if ¬ m.mNotReady > 0 then some (m.goto i .lockLeave) else none
  | .lockLeave =>
    if m.mWaitingLock = none then some { m.goto i .leave with mWaitingLock := some i } else none
  | .unlockLeave => some { m.goto i .returns with mWaitingLock := none }
  | _ => none

def State.after (m : State T) : Label T → Option (State T)
  | .call i =>
    if m.control i = .outside then
      some { m.goto i .lockReady with calls := Function.update m.calls i (m.calls i + 1) }
    else none
  | .decrement i =>
    if m.control i = .decrement then
      some { m.goto i (if m.mNotReady = 1 then .lastWaits else .lockWaiting) with
        mNotReady := Barrier.decrement m.mNotReady }
    else none
  | .leave i =>
    if m.control i = .leave then
      some { m.goto i .unlockLeave with mWaiting := Barrier.decrement m.mWaiting }
    else none
  | .returns i => if m.control i = .returns then some (m.goto i .outside) else none
  | .other i => m.otherStep i

theorem Step.of_otherStep (h : m.otherStep i = some m') : Step m (.other i) m' := by
  unfold State.otherStep at h
  split at h
  case h_1 hi =>
    split at h <;> cases h
    exact .lockReady hi ‹_›
  case h_2 hi =>
    split at h <;> cases h
    exact .lastWaits hi ‹_›
  case h_3 hi =>
    cases h
    exact .reset hi
  case h_4 hi =>
    cases h
    exact .lastUnlocks hi
  case h_5 hi =>
    split at h <;> cases h
    exact .lockWaiting hi ‹_›
  case h_6 hi =>
    cases h
    exact .arrive hi
  case h_7 hi =>
    cases h
    exact .unlockWaiting hi
  case h_8 hi =>
    cases h
    exact .unlockReady hi
  case h_9 hi =>
    split at h <;> cases h
    exact .spin hi ‹_›
  case h_10 hi =>
    split at h <;> cases h
    exact .lockLeave hi ‹_›
  case h_11 hi =>
    cases h
    exact .unlockLeave hi
  case h_12 => cases h

theorem Step.of_after (h : m.after l = some m') : Step m l m' := by
  cases l with
  | call i =>
    simp only [State.after] at h
    split at h <;> cases h
    exact .call ‹_›
  | decrement i =>
    simp only [State.after] at h
    split at h <;> cases h
    exact .decrement ‹_›
  | leave i =>
    simp only [State.after] at h
    split at h <;> cases h
    exact .leave ‹_›
  | returns i =>
    simp only [State.after] at h
    split at h <;> cases h
    exact .returns ‹_›
  | other i => exact .of_otherStep h

/-- The first of two threads spins, since the second has not called `await`. -/
theorem barrier_progress_two : ∃ (m : State (Fin 2)) (ls : _), Run Step .initial ls m ∧
    m.control 0 = .spin ∧ ((∃ j, CanStep m j) ∨
      m.control 0 = .spin ∧ ∃ j, m.control j = .outside ∧ m.calls j < m.calls 0) ∧
    ∃ since, ls = .call 0 :: since ∧
      since.countP (Label.worksFor 0) + (m.control 0).remaining ≤ 11 := by
  have hrun₁ : Run Step (.initial : State (Fin 2)) [.call 0] _ := .single (.call rfl)
  have hrun₂ := hrun₁.snoc (l := Label.other 0) (.lockReady rfl rfl)
  have hrun₃ := hrun₂.snoc (l := Label.decrement 0) (.decrement rfl)
  have hrun₄ := hrun₃.snoc (l := Label.other 0) (.lockWaiting rfl rfl)
  have hrun₅ := hrun₄.snoc (l := Label.other 0) (.arrive rfl)
  have hrun₆ := hrun₅.snoc (l := Label.other 0) (.unlockWaiting rfl)
  have hrun₇ := hrun₆.snoc (l := Label.other 0) (.unlockReady rfl)
  have hprogress := barrier_progress hrun₇
  exact ⟨_, _, hrun₇, rfl, hprogress.1 0 (by decide), _, rfl,
    hprogress.2 0 [] _ rfl (by simp)⟩

end Barrier
end CyPhOS
