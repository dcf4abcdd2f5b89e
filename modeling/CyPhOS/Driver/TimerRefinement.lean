import CyPhOS.Driver.TimerQueues
import CyPhOS.Driver.TimerAgenda

/-! # The software timer refines its agenda

`GenericTimer.Refines t lists a`: the four queues of the timer `t` are the lists `lists`, and with
its counters they stand for the agenda `a`. The pools and the periodic queue are the agenda's own
lists. The oneshot queue is a delta list, whose times are those of the agenda's oneshot events.

There is one lemma for each operation of the timer: on a timer that refines an agenda it returns,
no subtraction goes below zero, and the timer it leaves refines the agenda after the step of that
name (`Refines.setOneshotEvent`, `Refines.cancelOneshotTimerEvent`, `Refines.handleTick` and so on).
The tick needs that every counter is running; `Refines.handleTick_of_zero` says what it does when
one is not.
-/

namespace CyPhOS

open LinkedList DeltaList

namespace GenericTimer

variable {R : Type} {t : GenericTimer R} {lists : TimerQueue → List TimerEvent}
  {e : TimerEvent} {q : TimerQueue} {l m : List TimerEvent}

/-- The entries of the periodic queue. -/
def periods (t : GenericTimer R) (l : List TimerEvent) : List (TimerEvent × Nat × Nat) :=
  l.map fun e => (e, t.mInterval e, t.mRemainingTicks e)

theorem periods_congr {t' : GenericTimer R} (hinterval : ∀ e ∈ l, t'.mInterval e = t.mInterval e)
    (hticks : ∀ e ∈ l, t'.mRemainingTicks e = t.mRemainingTicks e) :
    t.periods l = t'.periods l :=
  List.map_congr_left fun e he => by rw [hinterval e he, hticks e he]

@[simp] theorem periods_map_fst : (t.periods l).map Prod.fst = l := by
  rw [periods, List.map_map]
  exact List.map_id l

/-- The timer, whose queues are these lists, stands for the agenda. -/
structure Refines (t : GenericTimer R) (lists : TimerQueue → List TimerEvent)
    (a : Agenda TimerEvent) : Prop where
  holds : t.Holds lists
  oneshotPool : a.oneshotPool = lists .mOneshotEventPool
  periodicPool : a.periodicPool = lists .mPeriodicEventPool
  oneshots : Schedules (due 0 (t.deltas (lists .mOneshotQueue))) a.oneshots
  periodics : a.periodics = t.periods (lists .mPeriodicQueue)
  oneshots_lt : ∀ x ∈ a.oneshots, x.2 < 2 ^ 32
  periodics_lt : ∀ x ∈ a.periodics, x.2.1 < 2 ^ 32 ∧ x.2.2 < 2 ^ 32
  subscribers : ∀ e, AtMostOne (t.mSubscribers e)
  free : ∀ e, e ∈ lists .mOneshotEventPool ∨ e ∈ lists .mPeriodicEventPool →
    t.mSubscribers e = Queue.new

namespace Refines

variable {a : Agenda TimerEvent}

theorem sumTicks_lt (h : t.Refines lists a) : t.sumTicks (lists .mOneshotQueue) < 2 ^ 32 := by
  have hlt := sum_lt_of_due_lt (s := 0) (Nat.two_pow_pos 32)
    fun x hx => h.oneshots_lt x (h.oneshots.mem_iff.mp hx)
  rwa [Nat.zero_add] at hlt

theorem mem_oneshots_iff (h : t.Refines lists a) :
    e ∈ a.oneshots.map Prod.fst ↔ e ∈ lists .mOneshotQueue := by
  have hkeys : (due 0 (t.deltas (lists .mOneshotQueue))).map Prod.fst = lists .mOneshotQueue := by
    rw [due_map_fst, deltas_map_fst]
  rw [← hkeys, List.mem_map, List.mem_map]
  simp only [h.oneshots.mem_iff]

theorem mem_periodics_iff (h : t.Refines lists a) :
    e ∈ a.periodics.map Prod.fst ↔ e ∈ lists .mPeriodicQueue := by
  rw [h.periodics, periods_map_fst]

/-- An event taken out of its queue is in none. -/
theorem notMem_of_remove (h : t.Refines lists a) (hq : lists q = l ++ e :: m) (q' : TimerQueue) :
    e ∉ Function.update lists q (l ++ m) q' := by
  rcases eq_or_ne q' q with rfl | hne
  · have hnodup := (h.holds.rep q').nodup
    rw [hq] at hnodup
    rw [Function.update_self]
    exact (List.nodup_cons.mp (List.perm_middle.nodup_iff.mp hnodup)).1
  · rw [Function.update_of_ne hne]
    exact fun he => hne (h.holds.disjoint _ _ e he (by simp [hq]))

theorem notMem_of_pool (h : t.Refines lists a) (hq : lists q = e :: l) (q' : TimerQueue) :
    e ∉ Function.update lists q l q' :=
  h.notMem_of_remove (l := []) hq q'

/-- When an event is taken out of its pool the others have no subscriber, as before. -/
theorem free_of_pool (h : t.Refines lists a) (hq : lists q = e :: l) (s : Queue R) {c : TimerEvent}
    (hc : c ∈ Function.update lists q l .mOneshotEventPool ∨
      c ∈ Function.update lists q l .mPeriodicEventPool) :
    Function.update t.mSubscribers e s c = Queue.new := by
  have hmem : ∀ q', c ∈ Function.update lists q l q' → c ≠ e ∧ c ∈ lists q' := by
    intro q' hc
    refine ⟨fun heq => h.notMem_of_pool hq q' (heq ▸ hc), ?_⟩
    rcases eq_or_ne q' q with rfl | hq'
    · rw [Function.update_self] at hc
      rw [hq]
      exact List.mem_cons_of_mem _ hc
    · rwa [Function.update_of_ne hq'] at hc
  have hne : c ≠ e := hc.elim (fun hc => (hmem _ hc).1) fun hc => (hmem _ hc).1
  rw [Function.update_of_ne hne]
  exact h.free c (hc.imp (fun hc => (hmem _ hc).2) fun hc => (hmem _ hc).2)

section
variable [DecidableEq R] [Fintype R]

theorem setOneshotEvent_nil (h : t.Refines lists a) (hpool : a.oneshotPool = []) (trigger : R)
    (delay : Nat) : t.setOneshotEvent trigger delay = .ok (none, false, t) := by
  have hdequeue := h.holds.dequeueFirst_nil (h.oneshotPool.symm.trans hpool)
  simp [setOneshotEvent, hdequeue]

theorem setPeriodicEvent_nil (h : t.Refines lists a) (hpool : a.periodicPool = []) (trigger : R)
    (interval : Nat) : t.setPeriodicEvent trigger interval = .ok (none, t) := by
  have hdequeue := h.holds.dequeueFirst_nil (h.periodicPool.symm.trans hpool)
  simp [setPeriodicEvent, hdequeue]

theorem setOneshotEvent {pool : List TimerEvent} {delay : Nat} (h : t.Refines lists a)
    (hpool : a.oneshotPool = e :: pool) (trigger : R) (hdelay : delay < 2 ^ 32) :
    ∃ t' lists', t.setOneshotEvent trigger delay = .ok (some e, false, t') ∧
      t'.mTimerInterval = t.mTimerInterval ∧ t'.Refines lists'
        { a with
          oneshotPool := pool
          oneshots := a.oneshots ++ [(e, delay / t.mTimerInterval)] } := by
  have hq := h.oneshotPool.symm.trans hpool
  have hr : delay / t.mTimerInterval < 2 ^ 32 := Nat.lt_of_le_of_lt (Nat.div_le_self ..) hdelay
  obtain ⟨k, p, hdequeue, hholds⟩ := h.holds.dequeueFirst hq
  have hfree : t.mSubscribers e = Queue.new := h.free e (.inl (by simp [hq]))
  obtain ⟨kR, s, hs, hadd⟩ := addSubscriber_free
    (t := { t.setQueue .mOneshotEventPool k p with
      mTimerEventType := Function.update t.mTimerEventType e .oneshot }) hfree trigger
  have hqueue : Function.update lists .mOneshotEventPool pool .mOneshotQueue =
      lists .mOneshotQueue := rfl
  obtain ⟨k', p', ticks, l, henqueue, hholds', hdeltas, hticks⟩ := Holds.enqueueOneshot
    (t := { t.setQueue .mOneshotEventPool k p with
      mTimerEventType := Function.update t.mTimerEventType e .oneshot, triggerLinks := kR,
      mSubscribers := Function.update t.mSubscribers e s }) hholds (h.notMem_of_pool hq)
    (by rw [hqueue]; exact h.sumTicks_lt) hr
  rw [hqueue] at hdeltas hticks
  refine ⟨_, _, ?_, ?_, hholds', ?_, ?_, ?_, ?_, ?_, ?_, ?_, ?_⟩
  · rw [GenericTimer.setOneshotEvent, hdequeue, Exec.ok_bind]
    dsimp only [setQueue] at hadd henqueue ⊢
    rw [hadd, Exec.ok_bind, henqueue]
    rfl
  · rfl
  · rfl
  · exact h.periodicPool
  · have hdue : due 0 (DeltaList.insert e (delay / t.mTimerInterval)
        (t.deltas (lists .mOneshotQueue))) = _ := due_insert
    rw [Nat.zero_add] at hdue
    have hinsert := h.oneshots.insert (x := (e, delay / t.mTimerInterval))
    rw [← hdue] at hinsert
    exact hdeltas ▸ hinsert
  · rw [h.periodics]
    refine periods_congr (fun _ _ => rfl) fun c hc => hticks c ?_
    rw [List.mem_cons, not_or]
    refine ⟨?_, fun hone => ?_⟩
    · rintro rfl
      exact h.notMem_of_pool hq .mPeriodicQueue hc
    · exact absurd (h.holds.disjoint _ _ c hc hone) (by decide)
  · intro x hx
    rcases List.mem_append.mp hx with hx | hx
    · exact h.oneshots_lt x hx
    · obtain rfl := List.mem_singleton.mp hx
      exact hr
  · exact h.periodics_lt
  · exact (Function.forall_update_iff _ fun _ => AtMostOne).mpr ⟨hs, fun c _ => h.subscribers c⟩
  · exact fun c hc => h.free_of_pool hq s hc

theorem setPeriodicEvent {pool : List TimerEvent} {interval : Nat} (h : t.Refines lists a)
    (hpool : a.periodicPool = e :: pool) (trigger : R) (hinterval : interval < 2 ^ 32) :
    ∃ t' lists', t.setPeriodicEvent trigger interval = .ok (some e, t') ∧
      t'.mTimerInterval = t.mTimerInterval ∧ t'.Refines lists'
        { a with
          periodicPool := pool
          periodics := a.periodics ++
            [(e, interval / t.mTimerInterval, interval / t.mTimerInterval)] } := by
  have hq := h.periodicPool.symm.trans hpool
  have hn : interval / t.mTimerInterval < 2 ^ 32 :=
    Nat.lt_of_le_of_lt (Nat.div_le_self ..) hinterval
  obtain ⟨k, p, hdequeue, hholds⟩ := h.holds.dequeueFirst hq
  have hfree : t.mSubscribers e = Queue.new := h.free e (.inr (by simp [hq]))
  obtain ⟨kR, s, hs, hadd⟩ := addSubscriber_free
    (t := { t.setQueue .mPeriodicEventPool k p with
      mTimerEventType := Function.update t.mTimerEventType e .periodic
      mInterval := Function.update t.mInterval e (interval / t.mTimerInterval)
      mRemainingTicks := Function.update t.mRemainingTicks e (interval / t.mTimerInterval) })
    hfree trigger
  obtain ⟨k', p', henqueue, hholds'⟩ := Holds.enqueueFast (q := .mPeriodicQueue)
    (t := { t.setQueue .mPeriodicEventPool k p with
      mTimerEventType := Function.update t.mTimerEventType e .periodic
      mInterval := Function.update t.mInterval e (interval / t.mTimerInterval)
      mRemainingTicks := Function.update t.mRemainingTicks e (interval / t.mTimerInterval)
      triggerLinks := kR
      mSubscribers := Function.update t.mSubscribers e s }) hholds (h.notMem_of_pool hq)
  have hqueue : Function.update lists .mPeriodicEventPool pool .mPeriodicQueue =
      lists .mPeriodicQueue := rfl
  rw [hqueue] at hholds'
  have hticks : ∀ c ≠ e, Function.update t.mRemainingTicks e (interval / t.mTimerInterval) c =
      t.mRemainingTicks c := fun c hc => Function.update_of_ne hc _ _
  have hne : ∀ {q' c}, q' ≠ .mPeriodicEventPool → c ∈ lists q' → c ≠ e := by
    rintro q' c hq' hc rfl
    exact hq' (h.holds.disjoint _ _ c hc (by simp [hq]))
  refine ⟨_, _, ?_, ?_, hholds', ?_, ?_, ?_, ?_, ?_, ?_, ?_, ?_⟩
  · rw [GenericTimer.setPeriodicEvent, hdequeue, Exec.ok_bind]
    dsimp only [setQueue, setRemainingTicks] at hadd henqueue ⊢
    rw [Function.update_self, hadd, Exec.ok_bind, henqueue]
    rfl
  · rfl
  · exact h.oneshotPool
  · rfl
  · refine (congrArg (fun d => Schedules (due 0 d) a.oneshots) (deltas_congr fun c hc => ?_)).mpr
      h.oneshots
    exact hticks c (hne (by decide) hc)
  · rw [h.periodics]
    refine (congrArg₂ (· ++ ·) (periods_congr (fun c hc => ?_) fun c hc => ?_) ?_).trans
      List.map_append.symm
    · exact Function.update_of_ne (hne (by decide) hc) _ _
    · exact hticks c (hne (by decide) hc)
    · simp [setQueue]
  · exact h.oneshots_lt
  · intro x hx
    rcases List.mem_append.mp hx with hx | hx
    · exact h.periodics_lt x hx
    · obtain rfl := List.mem_singleton.mp hx
      exact ⟨hn, hn⟩
  · exact (Function.forall_update_iff _ fun _ => AtMostOne).mpr ⟨hs, fun c _ => h.subscribers c⟩
  · exact fun c hc => h.free_of_pool hq s hc

end

/-! ### The tick -/

/-- The first event of the delta queue has at least one tick to go. -/
theorem head_pos (h : t.Refines lists a) (hpos : ∀ x ∈ a.oneshots, 0 < x.2)
    (hl : lists .mOneshotQueue = e :: l) : 0 < t.mRemainingTicks e := by
  have hmem : (e, 0 + t.mRemainingTicks e) ∈ due 0 (t.deltas (lists .mOneshotQueue)) := by
    rw [hl]
    exact List.mem_cons_self ..
  simpa using hpos _ (h.oneshots.mem_iff.mp hmem)

theorem tickOneshots (h : t.Refines lists a) (hpos : ∀ x ∈ a.oneshots, 0 < x.2) :
    ∃ t' lists', t.tickOneshots = .ok (a.firedOneshots, false, t') ∧
      t'.mTimerInterval = t.mTimerInterval ∧
      t'.Refines lists' { a with oneshots := a.tick.oneshots } := by
  cases hl : lists .mOneshotQueue with
  | nil =>
    have hnone : a.oneshots = [] := by
      rw [List.eq_nil_iff_forall_not_mem]
      intro x hx
      have hdue := h.oneshots.mem_iff.mpr hx
      rw [hl] at hdue
      cases hdue
    have hsize : (t.queues .mOneshotQueue).pSize = 0 := h.holds.size_eq_zero.mpr hl
    refine ⟨t, lists, ?_, rfl, ?_⟩
    · rw [GenericTimer.tickOneshots, if_pos hsize]
      simp [Agenda.firedOneshots, Agenda.countedDown, hnone]
    · have htick : a.tick.oneshots = a.oneshots := by
        simp [Agenda.tick, Agenda.countedDown, hnone]
      rw [htick]
      exact h
  | cons e l =>
    have hpositive := h.head_pos hpos hl
    have hsum := h.sumTicks_lt
    rw [hl, sumTicks_cons] at hsum
    have hdown : sub32 (t.mRemainingTicks e) 1 = t.mRemainingTicks e - 1 :=
      sub32_eq hpositive (by omega)
    obtain ⟨k, p, hok, hholds⟩ := h.holds.tickOneshots hl
    rw [hdown] at hok hholds
    -- the times after counting down the head are those of the agenda after the tick
    have hel := (List.nodup_cons.mp (hl ▸ (h.holds.rep .mOneshotQueue).nodup)).1
    have hcount : (t.setRemainingTicks e (t.mRemainingTicks e - 1)).deltas (e :: l) =
        countDown (t.deltas (lists .mOneshotQueue)) := by
      rw [hl, deltas_cons, deltas_cons, deltas_setRemainingTicks hel, setRemainingTicks_self,
        countDown]
    have hsched : Schedules (due 0 ((t.setRemainingTicks e (t.mRemainingTicks e - 1)).deltas
        (e :: l))) a.countedDown := by
      rw [hcount, due_countDown fun x hx => hpos x (h.oneshots.mem_iff.mp hx)]
      exact h.oneshots.pred hpos
    have hfired : ((e :: l).takeWhile fun c => (t.setRemainingTicks e
        (t.mRemainingTicks e - 1)).mRemainingTicks c = 0) = a.firedOneshots := by
      rw [Agenda.firedOneshots, ← hsched.filter_eq, ← due_takeWhile, deltas, List.takeWhile_map,
        List.map_map]
      exact (List.map_id _).symm
    have hkept : (t.setRemainingTicks e (t.mRemainingTicks e - 1)).deltas ((e :: l).dropWhile
        fun c => (t.setRemainingTicks e (t.mRemainingTicks e - 1)).mRemainingTicks c = 0) =
        ((t.setRemainingTicks e (t.mRemainingTicks e - 1)).deltas (e :: l)).dropWhile
          fun x => x.2 = 0 := by
      rw [deltas, deltas, List.dropWhile_map]
      rfl
    rw [hfired, decide_eq_false (by omega)] at hok
    refine ⟨_, _, hok, rfl, hholds, h.oneshotPool, h.periodicPool, ?_, ?_, ?_, h.periodics_lt,
      h.subscribers, h.free⟩
    · have hfilter := hsched.filter fun x => x.2 ≠ 0
      rw [← due_dropWhile, ← hkept] at hfilter
      exact hfilter
    · rw [h.periodics]
      refine periods_congr (fun _ _ => rfl) fun c hc => setRemainingTicks_of_ne ?_
      rintro rfl
      exact absurd (h.holds.disjoint _ _ c hc (hl ▸ List.mem_cons_self ..)) (by decide)
    · intro x hx
      obtain ⟨-, y, hy, rfl⟩ := Agenda.mem_tick_oneshots.mp hx
      exact Nat.lt_of_le_of_lt (Nat.sub_le ..) (h.oneshots_lt y hy)

theorem tickPeriodics (h : t.Refines lists a) (hpos : ∀ x ∈ a.periodics, 0 < x.2.2) :
    ∃ ticks, t.tickPeriodics = .ok (a.firedPeriodics, false, { t with mRemainingTicks := ticks }) ∧
      Refines { t with mRemainingTicks := ticks } lists
        { a with periodics := a.tick.periodics } := by
  obtain ⟨ticks, hok, hin, hout⟩ := h.holds.tickPeriodics
  have hentry : ∀ e ∈ lists .mPeriodicQueue, (e, t.mInterval e, t.mRemainingTicks e) ∈ a.periodics := by
    intro e he
    rw [h.periodics]
    exact List.mem_map_of_mem he
  have hdown : ∀ e ∈ lists .mPeriodicQueue, sub32 (t.mRemainingTicks e) 1 =
      t.mRemainingTicks e - 1 := fun e he =>
    sub32_eq (hpos _ (hentry e he)) (h.periodics_lt _ (hentry e he)).2
  have hfired : ((lists .mPeriodicQueue).filter fun e => sub32 (t.mRemainingTicks e) 1 = 0) =
      a.firedPeriodics := by
    rw [Agenda.firedPeriodics, h.periodics, periods, List.filter_map, List.map_map]
    refine (List.filter_congr fun e he => ?_).trans (List.map_id _).symm
    rw [hdown e he]
    rfl
  have hrunning : ((lists .mPeriodicQueue).any fun e => t.mRemainingTicks e < 1) = false := by
    rw [List.any_eq_false]
    intro e he
    have := hpos _ (hentry e he)
    simpa using Nat.ne_of_gt this
  rw [hfired, hrunning] at hok
  refine ⟨ticks, hok, h.holds, h.oneshotPool, h.periodicPool, ?_, ?_, h.oneshots_lt, ?_,
    h.subscribers, h.free⟩
  · refine (congrArg (fun d => Schedules (due 0 d) a.oneshots) (deltas_congr fun c hc => ?_)).mpr
      h.oneshots
    exact hout c fun hp => absurd (h.holds.disjoint _ _ c hc hp) (by decide)
  · rw [Agenda.tick, h.periodics, periods, List.map_map]
    refine List.map_congr_left fun e he => ?_
    simp [hin e he, hdown e he]
  · intro x hx
    obtain ⟨y, hy, rfl⟩ := List.mem_map.mp hx
    obtain ⟨hn, hm⟩ := h.periodics_lt y hy
    refine ⟨hn, ?_⟩
    show (if y.2.2 - 1 = 0 then y.2.1 else y.2.2 - 1) < 2 ^ 32
    split <;> omega

/-- A tick of the timer is a tick of the agenda, when every counter is running. -/
theorem handleTick (h : t.Refines lists a) (hinv : a.Inv) :
    ∃ t' lists', t.handleTick = .ok (a.firedOneshots, a.firedPeriodics, false, t') ∧
      t'.mTimerInterval = t.mTimerInterval ∧ t'.Refines lists' a.tick := by
  obtain ⟨t₁, lists', hok, hinterval, hrefines⟩ := h.tickOneshots hinv.oneshots_pos
  obtain ⟨ticks, hok', hrefines'⟩ :=
    hrefines.tickPeriodics fun x hx => (hinv.periodics_pos x hx).2
  refine ⟨{ t₁ with mRemainingTicks := ticks, mTicks := (t₁.mTicks + 1) % 2 ^ 64 }, lists', ?_,
    hinterval, ?_⟩
  · rw [GenericTimer.handleTick, hok, Exec.ok_bind]
    dsimp only
    rw [hok']
    rfl
  · exact { hrefines' with }

/-- A tick that meets a counter at zero decrements it. Then no oneshot event fires, if the counter
is that of one. -/
theorem handleTick_of_zero (h : t.Refines lists a)
    (hzero : (∃ e, (e, 0) ∈ a.oneshots) ∨ ∃ e n, (e, n, 0) ∈ a.periodics) :
    ∃ os ps t', t.handleTick = .ok (os, ps, true, t') ∧
      ((∃ e, (e, 0) ∈ a.oneshots) → os = []) := by
  have hone : ∃ os w t₁ lists', t.tickOneshots = .ok (os, w, t₁) ∧ t₁.Holds lists' ∧
      lists' .mPeriodicQueue = lists .mPeriodicQueue ∧
      (∀ c ∈ lists .mPeriodicQueue, t₁.mRemainingTicks c = t.mRemainingTicks c) ∧
      ((∃ e, (e, 0) ∈ a.oneshots) → w = true ∧ os = []) := by
    cases hl : lists .mOneshotQueue with
    | nil =>
      have hsize : (t.queues .mOneshotQueue).pSize = 0 := h.holds.size_eq_zero.mpr hl
      refine ⟨[], false, t, lists, ?_, h.holds, rfl, fun _ _ => rfl, ?_⟩
      · rw [GenericTimer.tickOneshots, if_pos hsize]
      · rintro ⟨e, he⟩
        have hmem := h.mem_oneshots_iff.mp (List.mem_map_of_mem he)
        rw [hl] at hmem
        cases hmem
    | cons e l =>
      obtain ⟨k, p, hok, hholds⟩ := h.holds.tickOneshots hl
      refine ⟨_, _, _, _, hok, hholds, rfl, fun c hc => setRemainingTicks_of_ne ?_, ?_⟩
      · rintro rfl
        exact absurd (h.holds.disjoint _ _ c hc (hl ▸ List.mem_cons_self ..)) (by decide)
      · rintro ⟨e', he'⟩
        -- nothing is due before the first event
        have hfirst : t.mRemainingTicks e = 0 := by
          have hdue := h.oneshots.mem_iff.mpr he'
          rw [hl, deltas_cons, due_cons] at hdue
          rcases List.mem_cons.mp hdue with heq | hdue
          · simpa using (congrArg Prod.snd heq).symm
          · simpa using le_of_mem_due hdue
        refine ⟨by simp [hfirst], ?_⟩
        rw [List.takeWhile_cons_of_neg]
        simp [hfirst, sub32]
  obtain ⟨os, w, t₁, lists', hok, hholds, hlist, hticks, hos⟩ := hone
  obtain ⟨ticks, hok', -⟩ := hholds.tickPeriodics
  generalize ((lists' .mPeriodicQueue).filter fun e => sub32 (t₁.mRemainingTicks e) 1 = 0) = ps
    at hok'
  refine ⟨os, ps, { t₁ with mRemainingTicks := ticks, mTicks := (t₁.mTicks + 1) % 2 ^ 64 }, ?_,
    fun he => (hos he).2⟩
  have htrue : (w || (lists' .mPeriodicQueue).any fun e => t₁.mRemainingTicks e < 1) = true := by
    rcases hzero with hzero | ⟨e, n, he⟩
    · rw [(hos hzero).1, Bool.true_or]
    · rw [h.periodics] at he
      obtain ⟨c, hc, heq⟩ := List.mem_map.mp he
      have hc0 : t.mRemainingTicks c = 0 := by
        simp only [Prod.mk.injEq] at heq
        exact heq.2.2
      rw [hlist, Bool.or_eq_true, List.any_eq_true]
      exact .inr ⟨c, hc, by simp [hticks c hc, hc0]⟩
  rw [GenericTimer.handleTick, hok, Exec.ok_bind]
  dsimp only
  rw [hok', Exec.ok_bind]
  dsimp only
  rw [htrue]
  rfl

/-! ### Giving events back -/

section
variable [DecidableEq R] [Fintype R]

/-- The events of a pool have no subscriber, also after one is given back. -/
theorem giveBack (h : t.Refines lists a) (he : ∀ q, e ∉ lists q)
    (hq : q = .mOneshotEventPool ∨ q = .mPeriodicEventPool) :
    ∃ t', (t.clearSubscribers e >>= fun t => t.enqueueFast q e) = .ok t' ∧
      t'.mTimerInterval = t.mTimerInterval ∧
      t'.Refines (Function.update lists q (lists q ++ [e]))
        { a with
          oneshotPool := Function.update lists q (lists q ++ [e]) .mOneshotEventPool
          periodicPool := Function.update lists q (lists q ++ [e]) .mPeriodicEventPool } := by
  have hother : ∀ q', q' ≠ .mOneshotEventPool → q' ≠ .mPeriodicEventPool →
      Function.update lists q (lists q ++ [e]) q' = lists q' := by
    intro q' h1 h2
    refine Function.update_of_ne ?_ _ _
    rintro rfl
    exact hq.elim h1 h2
  have hone := hother .mOneshotQueue (by decide) (by decide)
  have hper := hother .mPeriodicQueue (by decide) (by decide)
  obtain ⟨kR, hclear⟩ := clearSubscribers_atMostOne (h.subscribers e)
  obtain ⟨k, p, henqueue, hholds⟩ := Holds.enqueueFast (q := q)
    (t := { t with
      triggerLinks := kR
      mSubscribers := Function.update t.mSubscribers e Queue.new }) h.holds he
  refine ⟨_, ?_, ?_, hholds, rfl, rfl, ?_, ?_, h.oneshots_lt, h.periodics_lt, ?_, ?_⟩
  · rw [hclear, Exec.ok_bind]
    exact henqueue
  · rfl
  · rw [hone]
    exact h.oneshots
  · rw [hper]
    exact h.periodics
  · exact (Function.forall_update_iff _ fun _ => AtMostOne).mpr
      ⟨.inl rfl, fun c _ => h.subscribers c⟩
  · intro c hc
    have hmem : ∀ {q'}, c ≠ e → c ∈ Function.update lists q (lists q ++ [e]) q' → c ∈ lists q' := by
      intro q' hne hc
      rcases eq_or_ne q' q with rfl | hq'
      · rw [Function.update_self] at hc
        exact (List.mem_append.mp hc).resolve_right (by simpa using hne)
      · rwa [Function.update_of_ne hq'] at hc
    show Function.update t.mSubscribers e Queue.new c = Queue.new
    rcases eq_or_ne c e with rfl | hne
    · rw [Function.update_self]
    · rw [Function.update_of_ne hne]
      exact h.free c (hc.imp (hmem hne) (hmem hne))

theorem returnOneshotEventToPool (h : t.Refines lists a) (he : ∀ q, e ∉ lists q) :
    ∃ t' lists', t.returnOneshotEventToPool e = .ok t' ∧ t'.mTimerInterval = t.mTimerInterval ∧
      t'.Refines lists' { a with oneshotPool := a.oneshotPool ++ [e] } := by
  obtain ⟨t', hok, hinterval, hrefines⟩ := h.giveBack he (.inl rfl)
  refine ⟨t', Function.update lists .mOneshotEventPool (lists .mOneshotEventPool ++ [e]), hok,
    hinterval, ?_⟩
  rw [h.oneshotPool]
  exact { hrefines with periodicPool := h.periodicPool }

theorem returnPeriodicEventToPool (h : t.Refines lists a) (he : ∀ q, e ∉ lists q) :
    ∃ t' lists', t.returnPeriodicEventToPool e = .ok t' ∧ t'.mTimerInterval = t.mTimerInterval ∧
      t'.Refines lists' { a with periodicPool := a.periodicPool ++ [e] } := by
  obtain ⟨t', hok, hinterval, hrefines⟩ := h.giveBack he (.inr rfl)
  refine ⟨t', Function.update lists .mPeriodicEventPool (lists .mPeriodicEventPool ++ [e]), hok,
    hinterval, ?_⟩
  rw [h.periodicPool]
  exact { hrefines with oneshotPool := h.oneshotPool }

theorem cancelPeriodicTimerEvent (h : t.Refines lists a) (he : e ∈ lists .mPeriodicQueue) :
    ∃ t' lists', t.cancelPeriodicTimerEvent e = .ok t' ∧ t'.mTimerInterval = t.mTimerInterval ∧
      t'.Refines lists'
        { a with
          periodicPool := a.periodicPool ++ [e]
          periodics := a.periodics.filter fun x => x.1 ≠ e } := by
  obtain ⟨l, m, hl⟩ := List.append_of_mem he
  obtain ⟨k, p, hremove, hholds⟩ := h.holds.removeElementFromList hl
  have hperiods : (a.periodics.filter fun x => x.1 ≠ e) = t.periods (l ++ m) := by
    obtain ⟨hel, hem⟩ : e ∉ l ∧ e ∉ m := by
      have hnodup := (h.holds.rep .mPeriodicQueue).nodup
      rw [hl] at hnodup
      simpa using (List.nodup_cons.mp (List.perm_middle.nodup_iff.mp hnodup)).1
    have hself : ∀ {n : List TimerEvent}, e ∉ n →
        ((t.periods n).filter fun x => x.1 ≠ e) = t.periods n := by
      intro n hen
      rw [List.filter_eq_self]
      intro x hx
      obtain ⟨c, hc, rfl⟩ := List.mem_map.mp hx
      simpa using ne_of_mem_of_not_mem hc hen
    have hsplit : t.periods (l ++ e :: m) = t.periods l ++
        (e, t.mInterval e, t.mRemainingTicks e) :: t.periods m := List.map_append
    rw [h.periodics, hl, hsplit, List.filter_append, List.filter_cons_of_neg (by simp), hself hel,
      hself hem]
    exact List.map_append.symm
  have hremoved : Refines (t.setQueue .mPeriodicQueue k p)
      (Function.update lists .mPeriodicQueue (l ++ m))
      { a with periodics := a.periodics.filter fun x => x.1 ≠ e } :=
    ⟨hholds, h.oneshotPool, h.periodicPool, h.oneshots, hperiods, h.oneshots_lt,
      fun x hx => h.periodics_lt x (List.mem_of_mem_filter hx), h.subscribers, h.free⟩
  obtain ⟨t', lists', hok, hinterval, hrefines⟩ :=
    hremoved.returnPeriodicEventToPool (h.notMem_of_remove hl)
  refine ⟨t', lists', ?_, hinterval, hrefines⟩
  rw [GenericTimer.cancelPeriodicTimerEvent, h.holds.find he, Exec.ok_bind]
  dsimp only
  rw [hremove]
  exact hok

omit [DecidableEq R] [Fintype R] in
/-- The event behind a cancelled one takes over its ticks. -/
theorem addToNext_eq (hnext : t.timerEventLinks.pNext e = m.head?) (hnodup : m.Nodup)
    (hsum : t.mRemainingTicks e + t.sumTicks m < 2 ^ 32) : ∃ ticks,
    t.addToNext e = { t with mRemainingTicks := ticks } ∧
    deltas { t with mRemainingTicks := ticks } m = carry (t.mRemainingTicks e) (t.deltas m) ∧
    ∀ c ∉ m, ticks c = t.mRemainingTicks c := by
  rw [addToNext, hnext]
  cases m with
  | nil => exact ⟨t.mRemainingTicks, rfl, rfl, fun _ _ => rfl⟩
  | cons c m =>
    have hcm : c ∉ m := (List.nodup_cons.mp hnodup).1
    have hadd : add32 (t.mRemainingTicks c) (t.mRemainingTicks e) =
        t.mRemainingTicks c + t.mRemainingTicks e := by
      rw [sumTicks_cons] at hsum
      exact add32_eq (by omega)
    refine ⟨_, rfl, ?_, fun d hd => setRemainingTicks_of_ne (List.ne_of_not_mem_cons hd)⟩
    rw [hadd]
    show (t.setRemainingTicks c _).deltas (c :: m) = _
    rw [deltas_cons, setRemainingTicks_self, deltas_setRemainingTicks hcm, deltas_cons, carry]

theorem cancelOneshotTimerEvent (h : t.Refines lists a) (he : e ∈ lists .mOneshotQueue) :
    ∃ t' lists', t.cancelOneshotTimerEvent e = .ok t' ∧ t'.mTimerInterval = t.mTimerInterval ∧
      t'.Refines lists'
        { a with
          oneshotPool := a.oneshotPool ++ [e]
          oneshots := a.oneshots.filter fun x => x.1 ≠ e } := by
  obtain ⟨l, m, hl⟩ := List.append_of_mem he
  obtain ⟨k, p, hremove, hholds⟩ := h.holds.removeElementFromList hl
  have hnodup := (h.holds.rep .mOneshotQueue).nodup
  have hsum := h.sumTicks_lt
  have hnext : t.timerEventLinks.pNext e = m.head? := by
    have hrep := h.holds.rep .mOneshotQueue
    rw [hl] at hrep
    exact hrep.next_eq
  rw [hl] at hnodup hsum
  obtain ⟨ticks, hticks, hcarry, hother⟩ := addToNext_eq hnext
    (List.nodup_cons.mp (List.nodup_append.mp hnodup).2.1).2
    (by rw [sumTicks_append, sumTicks_cons] at hsum; omega)
  have hel : e ∉ l := fun hc => (List.nodup_append.mp hnodup).2.2 e hc e (List.mem_cons_self ..) rfl
  have hdeltas : deltas { t with mRemainingTicks := ticks } (l ++ m) =
      DeltaList.remove e (t.deltas (lists .mOneshotQueue)) := by
    have hfront : deltas { t with mRemainingTicks := ticks } l = t.deltas l :=
      deltas_congr fun c hc => hother c fun hcm =>
        (List.nodup_append.mp hnodup).2.2 c hc c (List.mem_cons_of_mem _ hcm) rfl
    rw [hl, deltas_append, deltas_append, deltas_cons, remove_append (by simpa using hel), hfront,
      hcarry]
  have hremoved : Refines ({ t with mRemainingTicks := ticks }.setQueue .mOneshotQueue k p)
      (Function.update lists .mOneshotQueue (l ++ m))
      { a with oneshots := a.oneshots.filter fun x => x.1 ≠ e } := by
    refine ⟨hholds, h.oneshotPool, h.periodicPool, ?_, ?_,
      fun x hx => h.oneshots_lt x (List.mem_of_mem_filter hx), h.periodics_lt, h.subscribers,
      h.free⟩
    · have hfilter := h.oneshots.filter fun x => x.1 ≠ e
      have hkeys : ((t.deltas (lists .mOneshotQueue)).map Prod.fst).Nodup := by
        rw [deltas_map_fst]
        exact (h.holds.rep .mOneshotQueue).nodup
      rw [← due_remove hkeys, ← hdeltas] at hfilter
      exact hfilter
    · refine h.periodics.trans (periods_congr (fun _ _ => rfl) fun c hc => hother c fun hcm => ?_)
      have hcl : c ∈ lists .mOneshotQueue := by
        rw [hl]
        exact List.mem_append_right _ (List.mem_cons_of_mem _ hcm)
      exact absurd (h.holds.disjoint _ _ c hc hcl) (by decide)
  obtain ⟨t', lists', hok, hinterval, hrefines⟩ :=
    hremoved.returnOneshotEventToPool (h.notMem_of_remove hl)
  refine ⟨t', lists', ?_, hinterval, hrefines⟩
  rw [GenericTimer.cancelOneshotTimerEvent, h.holds.find he, Exec.ok_bind]
  dsimp only
  rw [hticks]
  dsimp only
  rw [hremove]
  exact hok

end

end Refines

/-! ### Construction -/

/-- The agenda of a timer just constructed: the first half of the events is free for oneshot
events, the second for periodic ones. -/
def newAgenda : Agenda TimerEvent where
  oneshotPool := (List.finRange cTimerPoolSize).map (Fin.castAdd cTimerPoolSize)
  periodicPool := (List.finRange cTimerPoolSize).map (Fin.natAdd cTimerPoolSize)
  oneshots := []
  periodics := []

theorem castAdd_ne_natAdd (i j : Fin cTimerPoolSize) :
    i.castAdd cTimerPoolSize ≠ j.natAdd cTimerPoolSize := by
  intro h
  have := congrArg Fin.val h
  simp at this
  omega

theorem newAgenda_inv : newAgenda.Inv := by
  refine ⟨?_, by simp [newAgenda], by simp [newAgenda]⟩
  have hnodup := List.nodup_finRange cTimerPoolSize
  refine List.nodup_append.mpr ⟨?_, ?_, ?_⟩
  · exact hnodup.map (Fin.castAdd_injective _ _)
  · exact hnodup.map (Fin.natAdd_injective _ _)
  · intro x hx y hy
    obtain ⟨i, -, rfl⟩ := List.mem_map.mp hx
    obtain ⟨j, -, rfl⟩ := List.mem_map.mp hy
    exact castAdd_ne_natAdd i j

/-- The loop that fills the two pools. -/
theorem enqueueToPools_eq {k : QueueElements TimerEvent} {p p' : Queue TimerEvent}
    (done todo : List (Fin cTimerPoolSize))
    (h : Queue.Rep k p (done.map (Fin.castAdd cTimerPoolSize)))
    (h' : Queue.Rep k p' (done.map (Fin.natAdd cTimerPoolSize))) (hnodup : (done ++ todo).Nodup) :
    ∃ k₁ p₁ p₁', todo.foldlM enqueueToPools (k, p, p') = .ok (k₁, p₁, p₁') ∧
      Queue.Rep k₁ p₁ ((done ++ todo).map (Fin.castAdd cTimerPoolSize)) ∧
      Queue.Rep k₁ p₁' ((done ++ todo).map (Fin.natAdd cTimerPoolSize)) := by
  induction todo generalizing k p p' done with
  | nil => exact ⟨k, p, p', rfl, by simpa using h, by simpa using h'⟩
  | cons i todo ih =>
    have hi : i ∉ done := fun hin => (List.nodup_append.mp hnodup).2.2 i hin i (by simp) rfl
    have hone : i.castAdd cTimerPoolSize ∉ done.map (Fin.castAdd cTimerPoolSize) := by
      rwa [List.mem_map_of_injective (Fin.castAdd_injective _ _)]
    have hper : i.natAdd cTimerPoolSize ∉ done.map (Fin.natAdd cTimerPoolSize) := by
      rwa [List.mem_map_of_injective (Fin.natAdd_injective _ _)]
    have hdisj : ∀ is js : List (Fin cTimerPoolSize),
        ∀ e ∈ is.map (Fin.castAdd cTimerPoolSize), e ∉ js.map (Fin.natAdd cTimerPoolSize) := by
      intro is js e he he'
      obtain ⟨i, -, rfl⟩ := List.mem_map.mp he
      obtain ⟨j, -, heq⟩ := List.mem_map.mp he'
      exact castAdd_ne_natAdd i j heq.symm
    obtain ⟨k₁, p₁, hok, hrep, hagree⟩ := h.enqueue hone
    have hrep' := h'.frame hagree fun e he he' => hdisj (i :: done) done e he' he
    obtain ⟨k₂, p₂, hok', hrep₂', hagree'⟩ := hrep'.enqueue hper
    have hsnoc : ∀ f : Fin cTimerPoolSize → TimerEvent, done.map f ++ [f i] = (done ++ [i]).map f :=
      fun f => by simp
    rw [hsnoc] at hrep hrep₂'
    have hrep₂ := hrep.frame hagree' fun e he => hdisj _ (i :: done) e he
    obtain ⟨k₃, p₃, p₃', hloop, hrep₃, hrep₃'⟩ := ih (done ++ [i]) hrep₂ hrep₂' (by simpa using hnodup)
    rw [List.append_assoc, List.singleton_append] at hrep₃ hrep₃'
    refine ⟨k₃, p₃, p₃', ?_, hrep₃, hrep₃'⟩
    have hround : enqueueToPools (k, p, p') i = .ok (k₂, p₁, p₂) := by
      rw [enqueueToPools, hok, Exec.ok_bind]
      dsimp only
      rw [hok']
      rfl
    rw [List.foldlM_cons, hround, Exec.ok_bind]
    exact hloop

/-- The fields of a new timer that are no queues of events. -/
theorem new_fields {interval : Nat} {t : GenericTimer R} (hnew : new interval = .ok t) :
    (∀ e, t.mSubscribers e = Queue.new) ∧ ∀ e, t.mTimerEventType e = .oneshot := by
  unfold new at hnew
  obtain ⟨⟨links, p, p'⟩, -, ht⟩ := Exec.bind_eq_ok.mp hnew
  obtain rfl := Except.ok.inj ht
  exact ⟨fun _ => rfl, fun _ => rfl⟩

/-- The timer after the constructor, whose loop leaves `k` and the two pools. -/
def newWith (interval : Nat) (k : QueueElements TimerEvent) (p p' : Queue TimerEvent) :
    GenericTimer R where
  mTimerInterval := interval
  mTicks := 0
  timerEventLinks := k
  queues
    | .mOneshotQueue | .mPeriodicQueue => Queue.new
    | .mOneshotEventPool => p
    | .mPeriodicEventPool => p'
  mTimerEventType _ := .oneshot
  mInterval _ := 0
  mRemainingTicks _ := 0
  triggerLinks := QueueElements.zeroed
  mSubscribers _ := Queue.new

/-- What its queues hold. -/
def newLists : TimerQueue → List TimerEvent
  | .mOneshotQueue | .mPeriodicQueue => []
  | .mOneshotEventPool => newAgenda.oneshotPool
  | .mPeriodicEventPool => newAgenda.periodicPool

/-- The constructor returns a timer with nothing set. -/
theorem new_refines (interval : Nat) :
    ∃ (t : GenericTimer R) (lists : TimerQueue → List TimerEvent), new interval = .ok t ∧
      t.mTimerInterval = interval ∧ t.Refines lists newAgenda := by
  obtain ⟨k, p, p', hloop, hrep, hrep'⟩ := enqueueToPools_eq [] (List.finRange cTimerPoolSize)
    (Queue.Rep.new QueueElements.zeroed) (Queue.Rep.new QueueElements.zeroed)
    (List.nodup_finRange cTimerPoolSize)
  rw [List.nil_append] at hrep hrep'
  refine ⟨newWith interval k p p', newLists, ?_, ?_,
    ⟨fun q => ?_, fun q q' e he he' => ?_⟩, rfl, rfl, Schedules.nil, rfl,
    ?_, ?_, fun _ => .inl ?_, fun _ _ => ?_⟩
  · rw [new, hloop]
    rfl
  · rfl
  · cases q with
    | mOneshotQueue => exact Queue.Rep.new k
    | mPeriodicQueue => exact Queue.Rep.new k
    | mOneshotEventPool => exact hrep
    | mPeriodicEventPool => exact hrep'
  · have hdisj : e ∈ newAgenda.oneshotPool → e ∉ newAgenda.periodicPool := by
      intro h h'
      obtain ⟨i, -, rfl⟩ := List.mem_map.mp h
      obtain ⟨j, -, heq⟩ := List.mem_map.mp h'
      exact castAdd_ne_natAdd i j heq.symm
    cases q <;> cases q' <;>
      first
        | rfl
        | exact absurd he (List.not_mem_nil)
        | exact absurd he' (List.not_mem_nil)
        | exact absurd he' (hdisj he)
        | exact absurd he (hdisj he')
  · intro x hx
    cases hx
  · intro x hx
    cases hx
  · rfl
  · rfl

/-! ### Cancelling an event that is not queued -/

/-- The call returns, and every queue and pool is the list that it was. -/
def KeepsQueues (t : GenericTimer R) (x : Exec (GenericTimer R)) : Prop :=
  ∃ t', x = .ok t' ∧ ∀ q l, (t.queues q).Rep t.timerEventLinks l →
    (t'.queues q).Rep t'.timerEventLinks l

/-- The search of a list without the event ends at its end. -/
theorem find_notMem {l : List TimerEvent} (h : (t.queues q).Rep t.timerEventLinks l) (he : e ∉ l) :
    (t.queues q).find t.timerEventLinks (· == e) = .ok none := by
  rw [h.find]
  exact congrArg Except.ok (List.find?_eq_none.mpr fun c hc => by
    rw [beq_iff_eq]
    exact fun heq => he (heq ▸ hc))

section
variable [DecidableEq R] [Fintype R]

theorem cancelOneshotTimerEvent_notMem (h : (t.queues .mOneshotQueue).Rep t.timerEventLinks l)
    (he : e ∉ l) : t.cancelOneshotTimerEvent e = .error .nullDereference := by
  rw [cancelOneshotTimerEvent, find_notMem h he]
  rfl

theorem cancelPeriodicTimerEvent_notMem (h : (t.queues .mPeriodicQueue).Rep t.timerEventLinks l)
    (he : e ∉ l) : t.cancelPeriodicTimerEvent e = .error .nullDereference := by
  rw [cancelPeriodicTimerEvent, find_notMem h he]
  rfl

/-- An event that is not queued is never cancelled without a null pointer being dereferenced. -/
theorem cancel_notQueued (t : GenericTimer R) (e : TimerEvent) (l : List TimerEvent)
    (he : e ∉ l) :
    ((t.queues .mOneshotQueue).Rep t.timerEventLinks l →
      t.cancelOneshotTimerEvent e = .error .nullDereference ∧
        ¬ t.KeepsQueues (t.cancelOneshotTimerEvent e)) ∧
    ((t.queues .mPeriodicQueue).Rep t.timerEventLinks l →
      t.cancelPeriodicTimerEvent e = .error .nullDereference ∧
        ¬ t.KeepsQueues (t.cancelPeriodicTimerEvent e)) := by
  constructor
  · intro h
    have hnull := cancelOneshotTimerEvent_notMem h he
    refine ⟨hnull, ?_⟩
    rintro ⟨t', hok, -⟩
    cases hnull.symm.trans hok
  · intro h
    have hnull := cancelPeriodicTimerEvent_notMem h he
    refine ⟨hnull, ?_⟩
    rintro ⟨t', hok, -⟩
    cases hnull.symm.trans hok

end

/-- The first of the oneshot events, and the first of the periodic ones. -/
def firstEvent (t : TimerEventType) : TimerEvent :=
  match t with
  | .oneshot => Fin.castAdd cTimerPoolSize ⟨0, by decide⟩
  | .periodic => Fin.natAdd cTimerPoolSize ⟨0, by decide⟩

/-- A timer just constructed, where nothing is queued. -/
theorem new_notQueued : ∃ (t : GenericTimer Unit) (lists : TimerQueue → List TimerEvent),
    new 1 = .ok t ∧ t.Holds lists ∧ (∀ e, e ∉ lists .mOneshotQueue) ∧
      ∀ e, e ∉ lists .mPeriodicQueue := by
  obtain ⟨t, lists, hnew, -, hrefines⟩ := new_refines (R := Unit) 1
  refine ⟨t, lists, hnew, hrefines.holds, fun e he => ?_, fun e he => ?_⟩
  · exact absurd (hrefines.mem_oneshots_iff.mpr he) (by simp [newAgenda])
  · exact absurd (hrefines.mem_periodics_iff.mpr he) (by simp [newAgenda])

theorem cancel_notQueued_new : ∃ t : GenericTimer Unit, new 1 = .ok t ∧
    t.cancelOneshotTimerEvent (firstEvent .oneshot) = .error .nullDereference ∧
    t.cancelPeriodicTimerEvent (firstEvent .periodic) = .error .nullDereference := by
  obtain ⟨t, lists, hnew, hholds, hone, hper⟩ := new_notQueued
  have hcancel := cancel_notQueued t (firstEvent .oneshot) _ (hone _)
  have hcancel' := cancel_notQueued t (firstEvent .periodic) _ (hper _)
  exact ⟨t, hnew, (hcancel.1 (hholds.rep _)).1, (hcancel'.2 (hholds.rep _)).1⟩

/-- An event that lies in its pool. -/
theorem cancel_dereferences_null :
    (¬ ∀ (t : GenericTimer Unit) (e : TimerEvent) (l : List TimerEvent), e ∉ l →
      (t.queues .mOneshotQueue).Rep t.timerEventLinks l →
        t.KeepsQueues (t.cancelOneshotTimerEvent e)) ∧
    ¬ ∀ (t : GenericTimer Unit) (e : TimerEvent) (l : List TimerEvent), e ∉ l →
      (t.queues .mPeriodicQueue).Rep t.timerEventLinks l →
        t.KeepsQueues (t.cancelPeriodicTimerEvent e) := by
  obtain ⟨t, lists, -, hholds, hone, hper⟩ := new_notQueued
  constructor
  · intro h
    obtain ⟨t', hok, -⟩ := h t (firstEvent .oneshot) _ (hone _) (hholds.rep _)
    cases (cancelOneshotTimerEvent_notMem (hholds.rep _) (hone _)).symm.trans hok
  · intro h
    obtain ⟨t', hok, -⟩ := h t (firstEvent .periodic) _ (hper _) (hholds.rep _)
    cases (cancelPeriodicTimerEvent_notMem (hholds.rep _) (hper _)).symm.trans hok

end GenericTimer
end CyPhOS
