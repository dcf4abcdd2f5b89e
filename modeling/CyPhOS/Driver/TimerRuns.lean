import CyPhOS.Driver.TimerRefinement

/-! # Runs of the software timer

`GenericTimer.Step` is a call of the timer with what it returns: setting an event, cancelling one
that is queued, giving back one that has fired, or a tick. A run of such calls whose delays and
intervals are all at least one tick (`LongStep`) is simulated by a run of the agenda, so what an
agenda fires and when holds of the timer:

* `new_firingTimes`: every event fires in the ticks it was set for, and in no others;
* `new_noCounterWraps`: no counter and no difference goes below zero. A delay shorter than a tick
  does break this, in the very next tick.
-/

namespace CyPhOS

open Transition

namespace GenericTimer

/-- A call of the timer and what it returns. -/
inductive Label (R : Type)
  | setOneshotEvent (trigger : R) (delay : Nat) (event : Option TimerEvent) (underflow : Bool)
  | setPeriodicEvent (trigger : R) (interval : Nat) (event : Option TimerEvent)
  | cancelOneshotTimerEvent (event : TimerEvent)
  | cancelPeriodicTimerEvent (event : TimerEvent)
  | returnOneshotEventToPool (event : TimerEvent)
  | handleTick (oneshots periodics : List TimerEvent) (underflow : Bool)
  deriving DecidableEq

namespace Label

variable {R : Type}

/-- The oneshot event that the call has put into the queue. -/
def oneshotSet : Label R → Option TimerEvent
  | .setOneshotEvent _ _ event _ => event
  | _ => none

def periodicSet : Label R → Option TimerEvent
  | .setPeriodicEvent _ _ event => event
  | _ => none

def isTick : Label R → Bool
  | .handleTick _ _ _ => true
  | _ => false

/-- A subtraction of the call went below zero. -/
def underflow : Label R → Bool
  | .setOneshotEvent _ _ _ underflow => underflow
  | .handleTick _ _ underflow => underflow
  | _ => false

/-- The delay or the interval that the call sets is at least one tick. -/
def AtLeastOneTick (mTimerInterval : Nat) : Label R → Prop
  | .setOneshotEvent _ delay _ _ => mTimerInterval ≤ delay
  | .setPeriodicEvent _ interval _ => mTimerInterval ≤ interval
  | _ => True

def toAgenda (mTimerInterval : Nat) : Label R → Agenda.Label TimerEvent
  | .setOneshotEvent _ delay event _ => .setOneshot (delay / mTimerInterval) event
  | .setPeriodicEvent _ interval event => .setPeriodic (interval / mTimerInterval) event
  | .cancelOneshotTimerEvent event => .cancelOneshot event
  | .cancelPeriodicTimerEvent event => .cancelPeriodic event
  | .returnOneshotEventToPool event => .returnOneshot event
  | .handleTick oneshots periodics _ => .tick oneshots periodics

end Label

/-- The number of ticks among the calls. -/
def ticks {R : Type} (ls : List (Label R)) : Nat := ls.countP Label.isTick

variable {R : Type} [DecidableEq R] [Fintype R]

/-- A call that returns. Delays and intervals are 32 bits wide; only queued events are cancelled,
and only events that are in no queue are given back. -/
inductive Step : GenericTimer R → Label R → GenericTimer R → Prop
  | setOneshotEvent {t t' trigger delay event underflow} : delay < 2 ^ 32 →
    t.setOneshotEvent trigger delay = .ok (event, underflow, t') →
    Step t (.setOneshotEvent trigger delay event underflow) t'
  | setPeriodicEvent {t t' trigger interval event} : interval < 2 ^ 32 →
    t.setPeriodicEvent trigger interval = .ok (event, t') →
    Step t (.setPeriodicEvent trigger interval event) t'
  | cancelOneshotTimerEvent {t t' event} :
    (t.queues .mOneshotQueue).find t.timerEventLinks (· == event) = .ok (some event) →
    t.cancelOneshotTimerEvent event = .ok t' → Step t (.cancelOneshotTimerEvent event) t'
  | cancelPeriodicTimerEvent {t t' event} :
    (t.queues .mPeriodicQueue).find t.timerEventLinks (· == event) = .ok (some event) →
    t.cancelPeriodicTimerEvent event = .ok t' → Step t (.cancelPeriodicTimerEvent event) t'
  | returnOneshotEventToPool {t t' event} :
    (∀ q, (t.queues q).find t.timerEventLinks (· == event) = .ok none) →
    t.returnOneshotEventToPool event = .ok t' → Step t (.returnOneshotEventToPool event) t'
  | handleTick {t t' oneshots periodics underflow} :
    t.handleTick = .ok (oneshots, periodics, underflow, t') →
    Step t (.handleTick oneshots periodics underflow) t'

/-- A call that sets no delay or interval shorter than a tick. -/
def LongStep (t : GenericTimer R) (l : Label R) (t' : GenericTimer R) : Prop :=
  Step t l t' ∧ l.AtLeastOneTick t.mTimerInterval

/-! ## The simulation -/

/-- The timer stands for the agenda, whose counters are running. -/
structure Simulates (interval : Nat) (t : GenericTimer R) (a : Agenda TimerEvent) : Prop where
  interval_eq : t.mTimerInterval = interval
  refines : ∃ lists, t.Refines lists a
  inv : a.Inv

variable {interval : Nat} {t t' t₀ : GenericTimer R} {a : Agenda TimerEvent} {l : Label R}
  {ls : List (Label R)}

/-- Every call is the step of the agenda of that name, and no subtraction goes below zero. -/
theorem LongStep.simulates (hinterval : 0 < interval) (h : Simulates interval t a)
    (hstep : LongStep t l t') :
    (∃ b, Agenda.Step a (l.toAgenda interval) b ∧ Simulates interval t' b) ∧
      l.underflow = false := by
  obtain ⟨rfl, ⟨lists, h⟩, hinv⟩ := h
  obtain ⟨hstep, hlong⟩ := hstep
  cases hstep with
  | @setOneshotEvent _ trigger delay event underflow hdelay hok =>
    cases hpool : a.oneshotPool with
    | nil =>
      obtain ⟨rfl, rfl, rfl⟩ : none = event ∧ false = underflow ∧ t = t' := by
        simpa using (h.setOneshotEvent_nil hpool trigger delay).symm.trans hok
      exact ⟨⟨a, .noOneshot hpool, rfl, ⟨lists, h⟩, hinv⟩, rfl⟩
    | cons e pool =>
      obtain ⟨t'', lists', hok', hinterval', hrefines⟩ :=
        h.setOneshotEvent hpool trigger hdelay
      obtain ⟨rfl, rfl, rfl⟩ : some e = event ∧ false = underflow ∧ t'' = t' := by
        simpa using hok'.symm.trans hok
      have hagenda := Agenda.Step.setOneshot hpool (Nat.div_pos hlong hinterval)
      exact ⟨⟨_, hagenda, hinterval', ⟨lists', hrefines⟩, hinv.step hagenda⟩, rfl⟩
  | @setPeriodicEvent _ trigger n event hn hok =>
    cases hpool : a.periodicPool with
    | nil =>
      obtain ⟨rfl, rfl⟩ : none = event ∧ t = t' := by
        simpa using (h.setPeriodicEvent_nil hpool trigger n).symm.trans hok
      exact ⟨⟨a, .noPeriodic hpool, rfl, ⟨lists, h⟩, hinv⟩, rfl⟩
    | cons e pool =>
      obtain ⟨t'', lists', hok', hinterval', hrefines⟩ := h.setPeriodicEvent hpool trigger hn
      obtain ⟨rfl, rfl⟩ : some e = event ∧ t'' = t' := by
        simpa using hok'.symm.trans hok
      have hagenda := Agenda.Step.setPeriodic hpool (Nat.div_pos hlong hinterval)
      exact ⟨⟨_, hagenda, hinterval', ⟨lists', hrefines⟩, hinv.step hagenda⟩, rfl⟩
  | cancelOneshotTimerEvent hfind hok =>
    have he := h.holds.mem_of_find hfind
    obtain ⟨t'', lists', hok', hinterval', hrefines⟩ := h.cancelOneshotTimerEvent he
    obtain rfl : t'' = t' := by simpa using hok'.symm.trans hok
    have hagenda := Agenda.Step.cancelOneshot (h.mem_oneshots_iff.mpr he)
    exact ⟨⟨_, hagenda, hinterval', ⟨lists', hrefines⟩, hinv.step hagenda⟩, rfl⟩
  | cancelPeriodicTimerEvent hfind hok =>
    have he := h.holds.mem_of_find hfind
    obtain ⟨t'', lists', hok', hinterval', hrefines⟩ := h.cancelPeriodicTimerEvent he
    obtain rfl : t'' = t' := by simpa using hok'.symm.trans hok
    have hagenda := Agenda.Step.cancelPeriodic (h.mem_periodics_iff.mpr he)
    exact ⟨⟨_, hagenda, hinterval', ⟨lists', hrefines⟩, hinv.step hagenda⟩, rfl⟩
  | @returnOneshotEventToPool _ event hfind hok =>
    have he : ∀ q, event ∉ lists q := fun q => h.holds.find_eq_none (hfind q)
    obtain ⟨t'', lists', hok', hinterval', hrefines⟩ := h.returnOneshotEventToPool he
    obtain rfl : t'' = t' := by simpa using hok'.symm.trans hok
    have hagenda := Agenda.Step.returnOneshot (a := a) (mt h.mem_oneshots_iff.mp (he _))
      (h.oneshotPool ▸ he _) (mt h.mem_periodics_iff.mp (he _)) (h.periodicPool ▸ he _)
    exact ⟨⟨_, hagenda, hinterval', ⟨lists', hrefines⟩, hinv.step hagenda⟩, rfl⟩
  | @handleTick _ os ps underflow hok =>
    obtain ⟨t'', lists', hok', hinterval', hrefines⟩ := h.handleTick hinv
    obtain ⟨rfl, rfl, rfl, rfl⟩ : a.firedOneshots = os ∧ a.firedPeriodics = ps ∧
        false = underflow ∧ t'' = t' := by
      simpa using hok'.symm.trans hok
    exact ⟨⟨_, .tick, hinterval', ⟨lists', hrefines⟩, hinv.step .tick⟩, rfl⟩

omit [DecidableEq R] [Fintype R] in
theorem new_simulates (hnew : new interval = .ok t₀) : Simulates interval t₀ newAgenda := by
  obtain ⟨t, lists, hok, hinterval, hrefines⟩ := new_refines (R := R) interval
  obtain rfl : t = t₀ := by simpa using hok.symm.trans hnew
  exact ⟨hinterval, ⟨lists, hrefines⟩, newAgenda_inv⟩

/-- A run of long calls is a run of the agenda. -/
theorem run_simulates (hinterval : 0 < interval) (h : Simulates interval t a)
    (hrun : Run LongStep t ls t') :
    ∃ b, Run Agenda.Step a (ls.map (Label.toAgenda interval)) b ∧ Simulates interval t' b :=
  hrun.simulate h fun h hstep => (hstep.simulates hinterval h).1

omit [DecidableEq R] [Fintype R] in
theorem ticks_toAgenda (interval : Nat) (ls : List (Label R)) :
    Agenda.ticks (ls.map (Label.toAgenda interval)) = ticks ls := by
  rw [Agenda.ticks, List.countP_map, ticks]
  refine congrArg (ls.countP ·) (funext fun l => ?_)
  cases l <;> rfl

omit [DecidableEq R] [Fintype R] in
theorem setOneshot_notMem (interval : Nat) {e : TimerEvent} (h : ∀ l ∈ ls, l.oneshotSet ≠ some e)
    (r : Nat) :
    .setOneshot r (some e) ∉ ls.map (Label.toAgenda interval) := by
  intro hmem
  obtain ⟨l, hl, heq⟩ := List.mem_map.mp hmem
  cases l with
  | setOneshotEvent trigger delay event underflow =>
    obtain ⟨-, rfl⟩ : delay / interval = r ∧ event = some e := by simpa [Label.toAgenda] using heq
    exact h _ hl rfl
  | _ => simp [Label.toAgenda] at heq

omit [DecidableEq R] [Fintype R] in
theorem setPeriodic_notMem {e : TimerEvent} (h : ∀ l ∈ ls, l.periodicSet ≠ some e) (n : Nat) :
    .setPeriodic n (some e) ∉ ls.map (Label.toAgenda interval) := by
  intro hmem
  obtain ⟨l, hl, heq⟩ := List.mem_map.mp hmem
  cases l with
  | setPeriodicEvent trigger m event =>
    obtain ⟨-, rfl⟩ : m / interval = n ∧ event = some e := by simpa [Label.toAgenda] using heq
    exact h _ hl rfl
  | _ => simp [Label.toAgenda] at heq

omit [DecidableEq R] [Fintype R] in
theorem cancelOneshot_notMem {e : TimerEvent} (h : .cancelOneshotTimerEvent e ∉ ls) :
    .cancelOneshot e ∉ ls.map (Label.toAgenda interval) := by
  intro hmem
  obtain ⟨l, hl, heq⟩ := List.mem_map.mp hmem
  cases l with
  | cancelOneshotTimerEvent event =>
    obtain rfl : event = e := by simpa [Label.toAgenda] using heq
    exact h hl
  | _ => simp [Label.toAgenda] at heq

omit [DecidableEq R] [Fintype R] in
theorem cancelPeriodic_notMem {e : TimerEvent} (h : .cancelPeriodicTimerEvent e ∉ ls) :
    .cancelPeriodic e ∉ ls.map (Label.toAgenda interval) := by
  intro hmem
  obtain ⟨l, hl, heq⟩ := List.mem_map.mp hmem
  cases l with
  | cancelPeriodicTimerEvent event =>
    obtain rfl : event = e := by simpa [Label.toAgenda] using heq
    exact h hl
  | _ => simp [Label.toAgenda] at heq

/-! ## Firing times -/

/-- Every call that is allowed returns, and a pool that is not empty gives an event. -/
structure Returns (t : GenericTimer R) : Prop where
  setOneshotEvent : ∀ trigger delay, delay < 2 ^ 32 → (t.queues .mOneshotEventPool).pSize ≠ 0 →
    ∃ event underflow t', t.setOneshotEvent trigger delay = .ok (some event, underflow, t')
  setPeriodicEvent : ∀ trigger interval, interval < 2 ^ 32 →
    (t.queues .mPeriodicEventPool).pSize ≠ 0 →
    ∃ event t', t.setPeriodicEvent trigger interval = .ok (some event, t')
  cancelOneshotTimerEvent : ∀ event,
    (t.queues .mOneshotQueue).find t.timerEventLinks (· == event) = .ok (some event) →
    ∃ t', t.cancelOneshotTimerEvent event = .ok t'
  cancelPeriodicTimerEvent : ∀ event,
    (t.queues .mPeriodicQueue).find t.timerEventLinks (· == event) = .ok (some event) →
    ∃ t', t.cancelPeriodicTimerEvent event = .ok t'
  handleTick : ∃ oneshots periodics underflow t',
    t.handleTick = .ok (oneshots, periodics, underflow, t')

theorem Simulates.returns (h : Simulates interval t a) : Returns t := by
  obtain ⟨rfl, ⟨lists, h⟩, hinv⟩ := h
  refine ⟨fun trigger delay hdelay hsize => ?_, fun trigger n hn hsize => ?_, fun e hfind => ?_,
    fun e hfind => ?_, ?_⟩
  · rw [Ne, h.holds.size_eq_zero, ← h.oneshotPool] at hsize
    obtain ⟨e, pool, hpool⟩ := List.exists_cons_of_ne_nil hsize
    obtain ⟨t', lists', hok, -⟩ := h.setOneshotEvent hpool trigger hdelay
    exact ⟨e, false, t', hok⟩
  · rw [Ne, h.holds.size_eq_zero, ← h.periodicPool] at hsize
    obtain ⟨e, pool, hpool⟩ := List.exists_cons_of_ne_nil hsize
    obtain ⟨t', lists', hok, -⟩ := h.setPeriodicEvent hpool trigger hn
    exact ⟨e, t', hok⟩
  · obtain ⟨t', lists', hok, -⟩ := h.cancelOneshotTimerEvent (h.holds.mem_of_find hfind)
    exact ⟨t', hok⟩
  · obtain ⟨t', lists', hok, -⟩ := h.cancelPeriodicTimerEvent (h.holds.mem_of_find hfind)
    exact ⟨t', hok⟩
  · obtain ⟨t', lists', hok, -⟩ := h.handleTick hinv
    exact ⟨_, _, _, t', hok⟩

/-- When the events fire in the runs from a timer. -/
structure FiringTimes (t₀ : GenericTimer R) : Prop where
  returns : ∀ {ls t}, Run LongStep t₀ ls t → Returns t
  /-- A oneshot event fires once, in the tick its delay ends with. -/
  oneshot : ∀ {xs ys zs trigger delay e u os ps w t}, Run LongStep t₀
      (xs ++ .setOneshotEvent trigger delay (some e) u :: (ys ++ .handleTick os ps w :: zs)) t →
    .cancelOneshotTimerEvent e ∉ ys → (∀ l ∈ ys, l.oneshotSet ≠ some e) →
    os.Nodup ∧ (e ∈ os ↔ ticks ys + 1 = delay / t₀.mTimerInterval)
  /-- Oneshot events of one tick fire in the order of insertion. -/
  oneshot_order : ∀ {xs ys ys' zs trigger delay e u trigger' delay' e' u' os ps w t},
    Run LongStep t₀ (xs ++ .setOneshotEvent trigger delay (some e) u ::
      (ys ++ .setOneshotEvent trigger' delay' (some e') u' ::
        (ys' ++ .handleTick os ps w :: zs))) t →
    .cancelOneshotTimerEvent e ∉ ys ++ ys' → .cancelOneshotTimerEvent e' ∉ ys' →
    (∀ l ∈ ys ++ .setOneshotEvent trigger' delay' (some e') u' :: ys', l.oneshotSet ≠ some e) →
    (∀ l ∈ ys', l.oneshotSet ≠ some e') → e ∈ os → e' ∈ os → [e, e'].Sublist os
  /-- An event that has not been set, or was cancelled, does not fire. -/
  oneshot_silent : ∀ {xs ys zs e os ps w t},
    Run LongStep t₀ (xs ++ (ys ++ .handleTick os ps w :: zs)) t →
    (xs = [] ∨ ∃ xs', xs = xs' ++ [.cancelOneshotTimerEvent e]) →
    (∀ l ∈ ys, l.oneshotSet ≠ some e) → e ∉ os
  /-- A periodic event fires in every tick that ends an interval. -/
  periodic : ∀ {xs ys zs trigger n e os ps w t}, Run LongStep t₀
      (xs ++ .setPeriodicEvent trigger n (some e) :: (ys ++ .handleTick os ps w :: zs)) t →
    .cancelPeriodicTimerEvent e ∉ ys →
    ps.Nodup ∧ (e ∈ ps ↔ n / t₀.mTimerInterval ∣ ticks ys + 1)
  periodic_silent : ∀ {xs ys zs e os ps w t},
    Run LongStep t₀ (xs ++ (ys ++ .handleTick os ps w :: zs)) t →
    (xs = [] ∨ ∃ xs', xs = xs' ++ [.cancelPeriodicTimerEvent e]) →
    (∀ l ∈ ys, l.periodicSet ≠ some e) → e ∉ ps

/-- Every event fires in the ticks it was set for and in no others. -/
theorem new_firingTimes (hinterval : 0 < interval) (hnew : new interval = .ok t₀) :
    FiringTimes t₀ := by
  have h₀ := new_simulates hnew
  obtain rfl := h₀.interval_eq
  refine ⟨fun hrun => ?_, fun hrun hcancel hset => ?_, fun hrun hcancel hcancel' hset hset' he he' => ?_,
    fun hrun hxs hset => ?_, fun hrun hcancel => ?_, fun hrun hxs hset => ?_⟩
  · obtain ⟨b, -, hb⟩ := run_simulates hinterval h₀ hrun
    exact hb.returns
  · obtain ⟨b, hrun, -⟩ := run_simulates hinterval h₀ hrun
    rw [← ticks_toAgenda t₀.mTimerInterval]
    simp only [List.map_append, List.map_cons, Label.toAgenda] at hrun
    exact Agenda.oneshot_fires newAgenda_inv hrun (cancelOneshot_notMem hcancel)
      (setOneshot_notMem _ hset)
  · obtain ⟨b, hrun, -⟩ := run_simulates hinterval h₀ hrun
    simp only [List.map_append, List.map_cons, Label.toAgenda] at hrun
    refine Agenda.oneshot_order newAgenda_inv hrun ?_ (cancelOneshot_notMem hcancel') (fun r => ?_)
      (setOneshot_notMem _ hset') he he'
    · rw [← List.map_append]
      exact cancelOneshot_notMem hcancel
    · have hnot := setOneshot_notMem t₀.mTimerInterval hset r
      rwa [List.map_append, List.map_cons] at hnot
  · obtain ⟨b, hrun, -⟩ := run_simulates hinterval h₀ hrun
    simp only [List.map_append, List.map_cons, Label.toAgenda] at hrun
    refine Agenda.oneshot_silent newAgenda_inv hrun ?_ (setOneshot_notMem _ hset)
    rcases hxs with rfl | ⟨xs', rfl⟩
    · exact .inl ⟨rfl, rfl⟩
    · exact .inr ⟨_, List.map_append⟩
  · obtain ⟨b, hrun, -⟩ := run_simulates hinterval h₀ hrun
    rw [← ticks_toAgenda t₀.mTimerInterval]
    simp only [List.map_append, List.map_cons, Label.toAgenda] at hrun
    exact Agenda.periodic_fires newAgenda_inv hrun (cancelPeriodic_notMem hcancel)
  · obtain ⟨b, hrun, -⟩ := run_simulates hinterval h₀ hrun
    simp only [List.map_append, List.map_cons, Label.toAgenda] at hrun
    refine Agenda.periodic_silent hrun ?_ (setPeriodic_notMem hset)
    rcases hxs with rfl | ⟨xs', rfl⟩
    · exact .inl ⟨rfl, rfl⟩
    · exact .inr ⟨_, List.map_append⟩

/-- What a call that sets events or cancels one leaves behind, if it returns what the label says. -/
def after (t : GenericTimer R) : Label R → Option (GenericTimer R)
  | .setOneshotEvent trigger delay event underflow =>
    (t.setOneshotEvent trigger delay).toOption.bind fun r =>
      if delay < 2 ^ 32 ∧ t.mTimerInterval ≤ delay ∧ r.1 = event ∧ r.2.1 = underflow then some r.2.2
      else none
  | .setPeriodicEvent trigger interval event =>
    (t.setPeriodicEvent trigger interval).toOption.bind fun r =>
      if interval < 2 ^ 32 ∧ t.mTimerInterval ≤ interval ∧ r.1 = event then some r.2 else none
  | .cancelOneshotTimerEvent event =>
    if ((t.queues .mOneshotQueue).find t.timerEventLinks (· == event)).toOption = some (some event) then
      (t.cancelOneshotTimerEvent event).toOption
    else none
  | _ => none

theorem LongStep.of_after (h : t.after l = some t') : LongStep t l t' := by
  cases l with
  | setOneshotEvent trigger delay event underflow =>
    obtain ⟨r, hcall, h⟩ := Option.bind_eq_some_iff.mp h
    split at h <;> cases h
    obtain ⟨hdelay, hlong, rfl, rfl⟩ := ‹_ ∧ _›
    exact ⟨.setOneshotEvent hdelay (Exec.toOption_eq_some.mp hcall), hlong⟩
  | setPeriodicEvent trigger n event =>
    obtain ⟨r, hcall, h⟩ := Option.bind_eq_some_iff.mp h
    split at h <;> cases h
    obtain ⟨hn, hlong, rfl⟩ := ‹_ ∧ _›
    exact ⟨.setPeriodicEvent hn (Exec.toOption_eq_some.mp hcall), hlong⟩
  | cancelOneshotTimerEvent event =>
    rw [after] at h
    split at h
    next hfind =>
      exact ⟨.cancelOneshotTimerEvent (Exec.toOption_eq_some.mp hfind)
        (Exec.toOption_eq_some.mp h), trivial⟩
    next => cases h
  | _ => cases h

/-- For the numbers of the events. -/
local instance timer_events : NeZero (cTimerPoolSize + cTimerPoolSize) := ⟨by decide⟩

/-- Three oneshot events and a periodic one are set for the same tick, and one is cancelled. -/
def fourEvents : List (Label Unit) :=
  [.setOneshotEvent () 1000000 (some 0) false, .setOneshotEvent () 1000000 (some 1) false,
    .setOneshotEvent () 1000000 (some 2) false, .setPeriodicEvent () 1000000 (some 32),
    .cancelOneshotTimerEvent 2]

/-- In the tick the two that are left fire in the order in which they were set, and the periodic one
fires. -/
theorem new_firingTimes_fires : ∃ (t₀ t : GenericTimer Unit) (os ps : List TimerEvent) (w : Bool),
    new 1000000 = .ok t₀ ∧ Run LongStep t₀ (fourEvents ++ [.handleTick os ps w]) t ∧
      [0, 1].Sublist os ∧ 2 ∉ os ∧ 32 ∈ ps := by
  have hafter : ((new 1000000).toOption.bind fun t₀ : GenericTimer Unit =>
      if t₀.mTimerInterval = 1000000 then fourEvents.foldlM after t₀ else none).isSome := by
    decide +kernel
  obtain ⟨t₁, hafter⟩ := Option.isSome_iff_exists.mp hafter
  obtain ⟨t₀, hnew, hafter⟩ := Option.bind_eq_some_iff.mp hafter
  rw [Exec.toOption_eq_some] at hnew
  split at hafter
  swap
  · cases hafter
  next hinterval =>
    have h := new_firingTimes (by decide) hnew
    have hrun₁ : Run LongStep t₀ fourEvents t₁ := .of_foldlM LongStep.of_after hafter
    obtain ⟨os, ps, w, t, htick⟩ := (h.returns hrun₁).handleTick
    have hrun : Run LongStep t₀ (fourEvents ++ [.handleTick os ps w]) t :=
      hrun₁.snoc ⟨.handleTick htick, trivial⟩
    have hone : 1000000 / t₀.mTimerInterval = 1 := by rw [hinterval]
    have hfirst := (@FiringTimes.oneshot _ _ _ _ h [] (fourEvents.drop 1) [] _ _ _ _ _ _ _ _ hrun
      (by decide) (by decide)).2.mpr (by rw [hone]; rfl)
    have hsecond := (@FiringTimes.oneshot _ _ _ _ h (fourEvents.take 1) (fourEvents.drop 2) [] _ _ _
      _ _ _ _ _ hrun (by decide) (by decide)).2.mpr (by rw [hone]; rfl)
    refine ⟨t₀, t, os, ps, w, hnew, hrun, ?_, ?_, ?_⟩
    · exact @FiringTimes.oneshot_order _ _ _ _ h [] [] (fourEvents.drop 2) [] _ _ _ _ _ _ _ _ _ _ _ _
        hrun (by decide) (by decide) (by decide) (by decide) hfirst hsecond
    · exact @FiringTimes.oneshot_silent _ _ _ _ h fourEvents [] [] _ _ _ _ _ hrun
        (.inr ⟨fourEvents.take 4, rfl⟩) (by simp)
    · exact (@FiringTimes.periodic _ _ _ _ h (fourEvents.take 3) (fourEvents.drop 4) [] _ _ _ _ _ _ _
        hrun (by decide)).2.mpr (by rw [hone]; exact Nat.one_dvd _)

/-! ## Counters do not wrap -/

/-- In the runs of these steps no subtraction goes below zero, and an accepted oneshot event that is
not cancelled fires within its delay, and within one tick if that is shorter. -/
structure NoCounterWraps (step : GenericTimer R → Label R → GenericTimer R → Prop)
    (t₀ : GenericTimer R) : Prop where
  underflow : ∀ {ls t}, Run step t₀ ls t → ∀ l ∈ ls, l.underflow = false
  fires : ∀ {xs ys trigger delay e u t},
    Run step t₀ (xs ++ .setOneshotEvent trigger delay (some e) u :: ys) t →
    .cancelOneshotTimerEvent e ∉ ys → max 1 (delay / t₀.mTimerInterval) ≤ ticks ys →
    ∃ ys₁ os ps w ys₂, ys = ys₁ ++ .handleTick os ps w :: ys₂ ∧ e ∈ os ∧
      ticks ys₁ + 1 ≤ max 1 (delay / t₀.mTimerInterval)

/-- The call sets a delay shorter than a tick, and the next tick decrements a counter at zero. -/
structure WrapsNext (t : GenericTimer R) : Prop where
  oneshot : ∀ {trigger delay e u t' os ps w t''}, delay < t.mTimerInterval →
    Step t (.setOneshotEvent trigger delay (some e) u) t' → Step t' (.handleTick os ps w) t'' →
    w = true ∧ os = []
  periodic : ∀ {trigger n e t' os ps w t''}, n < t.mTimerInterval →
    Step t (.setPeriodicEvent trigger n (some e)) t' → Step t' (.handleTick os ps w) t'' →
    w = true

theorem Simulates.wrapsNext (h : Simulates interval t a) : WrapsNext t := by
  obtain ⟨rfl, ⟨lists, h⟩, hinv⟩ := h
  refine ⟨fun {trigger delay e u t' os ps w t''} hlt hset htick => ?_,
    fun {trigger n e t' os ps w t''} hlt hset htick => ?_⟩
  · cases hset with
    | setOneshotEvent hdelay hok =>
      cases hpool : a.oneshotPool with
      | nil => simp [(h.setOneshotEvent_nil hpool trigger delay)] at hok
      | cons e' pool =>
        obtain ⟨t₁, lists', hok', -, hrefines⟩ := h.setOneshotEvent hpool trigger hdelay
        obtain ⟨rfl, -, rfl⟩ : e' = e ∧ false = u ∧ t₁ = t' := by
          simpa using hok'.symm.trans hok
        rw [Nat.div_eq_of_lt hlt] at hrefines
        have hzero : ∃ c, (c, 0) ∈ a.oneshots ++ [(e', 0)] :=
          ⟨e', List.mem_append_right _ (List.mem_singleton_self _)⟩
        obtain ⟨os', ps', t₂, htick', hos⟩ := hrefines.handleTick_of_zero (.inl hzero)
        cases htick with
        | handleTick htick =>
          obtain ⟨rfl, -, hw, -⟩ : os' = os ∧ ps' = ps ∧ true = w ∧ t₂ = t'' := by
            simpa using htick'.symm.trans htick
          exact ⟨hw.symm, hos hzero⟩
  · cases hset with
    | setPeriodicEvent hn hok =>
      cases hpool : a.periodicPool with
      | nil => simp [(h.setPeriodicEvent_nil hpool trigger n)] at hok
      | cons e' pool =>
        obtain ⟨t₁, lists', hok', -, hrefines⟩ := h.setPeriodicEvent hpool trigger hn
        obtain ⟨rfl, rfl⟩ : e' = e ∧ t₁ = t' := by simpa using hok'.symm.trans hok
        rw [Nat.div_eq_of_lt hlt] at hrefines
        have hzero : ∃ c m, (c, m, 0) ∈ a.periodics ++ [(e', 0, 0)] :=
          ⟨e', 0, List.mem_append_right _ (List.mem_singleton_self _)⟩
        obtain ⟨os', ps', t₂, htick', -⟩ := hrefines.handleTick_of_zero (.inr hzero)
        cases htick with
        | handleTick htick =>
          obtain ⟨-, -, hw, -⟩ : os' = os ∧ ps' = ps ∧ true = w ∧ t₂ = t'' := by
            simpa using htick'.symm.trans htick
          exact hw.symm

/-- Without a delay or an interval shorter than a tick no counter wraps, and with one the next tick
decrements a counter at zero. -/
theorem new_noCounterWraps (hinterval : 0 < interval) (hnew : new interval = .ok t₀) :
    NoCounterWraps LongStep t₀ ∧ ∀ {ls t}, Run LongStep t₀ ls t → WrapsNext t := by
  have h₀ := new_simulates hnew
  obtain rfl := h₀.interval_eq
  refine ⟨⟨fun hrun => ?_, fun {xs ys trigger delay e u t} hrun hcancel hticks => ?_⟩,
    fun hrun => ?_⟩
  · induction hrun with
    | nil => exact fun l hl => absurd hl List.not_mem_nil
    | @snoc ls t l t' hrun hstep ih =>
      obtain ⟨b, -, hb⟩ := run_simulates hinterval h₀ hrun
      intro k hk
      rcases List.mem_append.mp hk with hk | hk
      · exact ih k hk
      · obtain rfl := List.mem_singleton.mp hk
        exact (hstep.simulates hinterval hb).2
  · obtain ⟨b, hagenda, -⟩ := run_simulates hinterval h₀ hrun
    simp only [List.map_append, List.map_cons, Label.toAgenda] at hagenda
    have hlong : 1 ≤ delay / t₀.mTimerInterval := by
      obtain ⟨a₁, -, hrest⟩ := run_append_iff.mp hagenda
      obtain ⟨a₂, hstep, -⟩ := run_cons_iff.mp hrest
      cases hstep with
      | setOneshot hpool hr => exact hr
    rw [max_eq_right hlong] at hticks ⊢
    obtain ⟨ys₁, l, ys₂, rfl, hl, hys₁⟩ := exists_nth hlong hticks
    cases l with
    | handleTick os ps w =>
      refine ⟨ys₁, os, ps, w, ys₂, rfl, ?_, hys₁.le⟩
      simp only [List.map_append, List.map_cons, Label.toAgenda] at hagenda
      have hticks' : Agenda.ticks (ys₁.map (Label.toAgenda t₀.mTimerInterval)) + 1 =
          delay / t₀.mTimerInterval := by
        rw [ticks_toAgenda]
        exact hys₁
      refine (Agenda.oneshot_due newAgenda_inv hagenda ?_ hticks'.le).mpr hticks'
      exact cancelOneshot_notMem fun hmem => hcancel (List.mem_append_left _ hmem)
    | _ => exact absurd hl (by simp [Label.isTick])
  · obtain ⟨b, -, hb⟩ := run_simulates hinterval h₀ hrun
    exact hb.wrapsNext

/-- An interval of one second and a oneshot event set for half a second: the next tick decrements
its counter, which is zero. -/
theorem not_noCounterWraps : ∃ t₀ : GenericTimer Unit, new 1000000 = .ok t₀ ∧
    ¬ NoCounterWraps Step t₀ := by
  obtain ⟨t₀, lists, hnew, hinterval, h⟩ := new_refines (R := Unit) 1000000
  obtain ⟨e, pool, hpool⟩ : ∃ e pool, newAgenda.oneshotPool = e :: pool := ⟨_, _, rfl⟩
  obtain ⟨t₁, lists', hset, -, h₁⟩ := h.setOneshotEvent hpool () (show 500000 < 2 ^ 32 by decide)
  rw [hinterval] at h₁
  have hzero : ∃ c, (c, 0) ∈ newAgenda.oneshots ++ [(e, 500000 / 1000000)] :=
    ⟨e, List.mem_append_right _ (List.mem_singleton_self _)⟩
  obtain ⟨os, ps, t₂, htick, -⟩ := h₁.handleTick_of_zero (.inl hzero)
  have hrun : Run Step t₀
      [.setOneshotEvent () 500000 (some e) false, .handleTick os ps true] t₂ :=
    (Run.single (.setOneshotEvent (by decide) hset)).snoc (.handleTick htick)
  refine ⟨t₀, hnew, fun hclaim => ?_⟩
  have hfalse := hclaim.underflow hrun (.handleTick os ps true) (by simp)
  exact Bool.noConfusion hfalse

/-- The constructor returns such a timer. -/
theorem new_noCounterWraps_second : ∃ t₀ : GenericTimer Unit, new 1000000 = .ok t₀ ∧
    NoCounterWraps LongStep t₀ ∧ ∀ {ls t}, Run LongStep t₀ ls t → WrapsNext t := by
  obtain ⟨t₀, lists, hnew, -⟩ := new_refines (R := Unit) 1000000
  exact ⟨t₀, hnew, new_noCounterWraps (by decide) hnew⟩

end GenericTimer
end CyPhOS
