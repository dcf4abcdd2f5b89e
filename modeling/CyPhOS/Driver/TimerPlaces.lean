import CyPhOS.Driver.TimerRuns

/-! # Where the timer keeps its events

`Located t loc` says in which of the four queues of the timer each event is. `Located.step` is what a
call does to that, whatever the counters are: an event that is set goes from its pool to its queue, one
that is cancelled or given back goes to its pool, and what fires in a tick leaves the oneshot queue.
-/

namespace CyPhOS

open LinkedList

namespace GenericTimer

/-! ## Labels -/

namespace Label

variable {R : Type}

/-- The queues of the events after the call. -/
def relocate (loc : TimerEvent → Option TimerQueue) : Label R → TimerEvent → Option TimerQueue
  | .setOneshotEvent _ _ (some e) _ => Function.update loc e (some .mOneshotQueue)
  | .setPeriodicEvent _ _ (some e) => Function.update loc e (some .mPeriodicQueue)
  | .cancelOneshotTimerEvent e => Function.update loc e (some .mOneshotEventPool)
  | .cancelPeriodicTimerEvent e => Function.update loc e (some .mPeriodicEventPool)
  | .returnOneshotEventToPool e => Function.update loc e (some .mOneshotEventPool)
  | .handleTick oneshots _ _ => fun e => if e ∈ oneshots then none else loc e
  | _ => loc

/-- The queue that the call takes an event from. -/
def From (loc : TimerEvent → Option TimerQueue) : Label R → Prop
  | .setOneshotEvent _ _ (some e) _ => loc e = some .mOneshotEventPool
  | .setPeriodicEvent _ _ (some e) => loc e = some .mPeriodicEventPool
  | .cancelOneshotTimerEvent e => loc e = some .mOneshotQueue
  | .cancelPeriodicTimerEvent e => loc e = some .mPeriodicQueue
  | .returnOneshotEventToPool e => loc e = none
  | .handleTick oneshots periodics _ => oneshots.Nodup ∧
      (∀ e ∈ oneshots, loc e = some .mOneshotQueue) ∧ ∀ e ∈ periodics, loc e = some .mPeriodicQueue
  | _ => True

/-- The types of the events after the call. -/
def retype (type : TimerEvent → TimerEventType) : Label R → TimerEvent → TimerEventType
  | .setOneshotEvent _ _ (some e) _ => Function.update type e .oneshot
  | .setPeriodicEvent _ _ (some e) => Function.update type e .periodic
  | _ => type

end Label

/-! ## Queues -/

variable {R : Type} {t t' : GenericTimer R} {loc loc' : TimerEvent → Option TimerQueue}
  {lists : TimerQueue → List TimerEvent} {e : TimerEvent} {q : TimerQueue} {l : List TimerEvent}

/-- The queue that each event is in, if it is in one. -/
def Located (t : GenericTimer R) (loc : TimerEvent → Option TimerQueue) : Prop :=
  ∃ lists, t.Holds lists ∧ ∀ q e, e ∈ lists q ↔ loc e = some q

theorem Located.congr (h : t.Located loc) (hlinks : t'.timerEventLinks = t.timerEventLinks)
    (hqueues : t'.queues = t.queues) : t'.Located loc := by
  obtain ⟨lists, hholds, hmem⟩ := h
  refine ⟨lists, ?_, hmem⟩
  rw [Holds, hlinks, hqueues]
  exact hholds

/-- An event is at a position of the queue that it is in, and at one only. -/
theorem Located.get (h : t.Located loc) : (loc e = some q ↔ ∃ pos, t.get q pos = some e) ∧
    ∀ pos pos', t.get q pos = some e → t.get q pos' = some e → pos = pos' := by
  obtain ⟨lists, hholds, hmem⟩ := h
  refine ⟨?_, fun pos pos' hpos hpos' => (hholds.rep q).get_inj hpos hpos'⟩
  rw [← hmem]
  exact (hholds.rep q).mem_iff_get

/-- The other queues have not changed. -/
theorem Located.relist (hmem : ∀ q e, e ∈ lists q ↔ loc e = some q)
    (hother : ∀ b, ∀ q' ≠ q, loc' b = some q' ↔ loc b = some q')
    (hl : ∀ b, b ∈ l ↔ loc' b = some q) (hholds : t.Holds (Function.update lists q l)) :
    t.Located loc' := by
  refine ⟨_, hholds, fun q' b => ?_⟩
  rcases eq_or_ne q' q with rfl | hq
  · rw [Function.update_self, hl]
  · rw [Function.update_of_ne hq, hmem, hother b q' hq]

/-- One event has come to the queue or left it. -/
theorem Located.place {place : Option TimerQueue} (hmem : ∀ q e, e ∈ lists q ↔ loc e = some q)
    (hother : ∀ q' ≠ q, loc e ≠ some q' ∧ place ≠ some q') (he : e ∈ l ↔ place = some q)
    (hl : ∀ b ≠ e, b ∈ l ↔ b ∈ lists q) (hholds : t.Holds (Function.update lists q l)) :
    t.Located (Function.update loc e place) := by
  refine Located.relist hmem (fun b q' hq => ?_) (fun b => ?_) hholds
  · rcases eq_or_ne b e with rfl | hb
    · rw [Function.update_self]
      exact iff_of_false (hother q' hq).2 (hother q' hq).1
    · rw [Function.update_of_ne hb]
  · rcases eq_or_ne b e with rfl | hb
    · rw [Function.update_self, he]
    · rw [Function.update_of_ne hb, hl b hb, hmem]

theorem Located.insert (hmem : ∀ q e, e ∈ lists q ↔ loc e = some q) (he : loc e = none)
    (hl : ∀ b, b ∈ l ↔ b = e ∨ b ∈ lists q) (hholds : t.Holds (Function.update lists q l)) :
    t.Located (Function.update loc e (some q)) := by
  refine Located.place hmem (fun q' hq => ?_) ?_ (fun b hb => ?_) hholds
  · simp [he, hq.symm]
  · simp [hl]
  · rw [hl, or_iff_right hb]

theorem Located.erase (hmem : ∀ q e, e ∈ lists q ↔ loc e = some q) (he : loc e = some q)
    (hl : ∀ b, b ∈ l ↔ b ≠ e ∧ b ∈ lists q) (hholds : t.Holds (Function.update lists q l)) :
    t.Located (Function.update loc e none) := by
  refine Located.place hmem (fun q' hq => ?_) ?_ (fun b hb => ?_) hholds
  · simp [he, hq.symm]
  · simp [hl]
  · rw [hl, and_iff_right hb]

theorem Located.dequeueFirst {o : Option TimerEvent} (h : t.Located loc)
    (hcall : t.dequeueFirst q = .ok (o, t')) : match o with
      | none => t' = t ∧ ∀ e, loc e ≠ some q
      | some e => loc e = some q ∧ t'.Located (Function.update loc e none) ∧
          t'.mTimerEventType = t.mTimerEventType := by
  obtain ⟨lists, hholds, hmem⟩ := h
  cases hl : lists q with
  | nil =>
    obtain ⟨rfl, rfl⟩ : none = o ∧ t = t' := by
      simpa using (hholds.dequeueFirst_nil hl).symm.trans hcall
    exact ⟨rfl, fun e he => by simpa [hl] using (hmem q e).mpr he⟩
  | cons e l =>
    obtain ⟨k, p, hok, hholds'⟩ := hholds.dequeueFirst hl
    obtain ⟨rfl, rfl⟩ : some e = o ∧ t.setQueue q k p = t' := by simpa using hok.symm.trans hcall
    have hnodup := (hholds.rep q).nodup
    rw [hl, List.nodup_cons] at hnodup
    have he : loc e = some q := (hmem q e).mp (by simp [hl])
    refine ⟨he, Located.erase hmem he (fun b => ?_) hholds', rfl⟩
    rw [hl, List.mem_cons]
    constructor
    · intro hb
      exact ⟨ne_of_mem_of_not_mem hb hnodup.1, .inr hb⟩
    · rintro ⟨hne, rfl | hb⟩
      · exact (hne rfl).elim
      · exact hb

theorem Located.enqueueFast (h : t.Located loc) (he : loc e = none)
    (hcall : t.enqueueFast q e = .ok t') :
    t'.Located (Function.update loc e (some q)) ∧
      t'.mTimerEventType = t.mTimerEventType := by
  obtain ⟨lists, hholds, hmem⟩ := h
  obtain ⟨k, p, hok, hholds'⟩ := hholds.enqueueFast (q := q) (e := e) fun q' hq' => by
    rw [hmem, he] at hq'
    cases hq'
  obtain rfl : t.setQueue q k p = t' := by simpa using hok.symm.trans hcall
  refine ⟨Located.insert hmem he (fun b => ?_) hholds', rfl⟩
  rw [List.mem_append, List.mem_singleton, or_comm]

theorem Located.removeElementFromList (h : t.Located loc) (he : loc e = some q) :
    (t.setQueue q ((t.queues q).removeElementFromList t.timerEventLinks e).1
      ((t.queues q).removeElementFromList t.timerEventLinks e).2).Located
        (Function.update loc e none) := by
  obtain ⟨lists, hholds, hmem⟩ := h
  obtain ⟨l, m, hl⟩ := List.append_of_mem ((hmem q e).mpr he)
  obtain ⟨k, p, hok, hholds'⟩ := hholds.removeElementFromList hl
  have hnodup := (hholds.rep q).nodup
  rw [hl, List.nodup_middle, List.nodup_cons] at hnodup
  rw [hok]
  refine Located.erase hmem he (fun b => ?_) hholds'
  rw [hl]
  constructor
  · intro hb
    refine ⟨ne_of_mem_of_not_mem hb hnodup.1, ?_⟩
    rw [List.mem_append] at hb
    exact List.mem_append.mpr (hb.imp_right (List.mem_cons_of_mem _))
  · rintro ⟨hne, hb⟩
    simpa [hne] using hb

/-- The loop finds an event of the queue, whatever the counters. -/
theorem mem_of_searchLoop {r s s' fuel : Nat} {p : Option TimerEvent} {c : TimerEvent}
    (hseg : Seg t.timerEventLinks.pNext t.timerEventLinks.pPrevious p l none)
    (hcall : t.searchLoop r fuel l.head? s = .ok (some c, s')) : c ∈ l := by
  induction l generalizing fuel s p with
  | nil => cases fuel <;> cases hcall
  | cons b l ih =>
    cases fuel with
    | zero => cases hcall
    | succ fuel =>
      rw [seg_cons, Option.or_none] at hseg
      rw [List.head?_cons, searchLoop] at hcall
      split at hcall
      · obtain ⟨rfl, -⟩ : b = c ∧ _ := by simpa using hcall
        exact List.mem_cons_self
      · rw [hseg.2.1] at hcall
        exact List.mem_cons_of_mem _ (ih hseg.2.2 hcall)

theorem Located.enqueueOneshot {r : Nat} {u : Bool} (h : t.Located loc) (he : loc e = none)
    (hcall : t.enqueueOneshot e r = .ok (u, t')) :
    t'.Located (Function.update loc e (some .mOneshotQueue)) ∧
      t'.mTimerEventType = t.mTimerEventType := by
  have hend : ∀ {n : Nat} {t₁ : GenericTimer R},
      (t.setRemainingTicks e n).enqueueFast .mOneshotQueue e = .ok t₁ →
      t₁.Located (Function.update loc e (some .mOneshotQueue)) ∧
        t₁.mTimerEventType = t.mTimerEventType :=
    fun {n _} henqueue => Located.enqueueFast (t := t.setRemainingTicks e n) h he henqueue
  rw [GenericTimer.enqueueOneshot] at hcall
  split at hcall
  · obtain ⟨t₁, henqueue, ht⟩ := Exec.bind_eq_ok.mp hcall
    obtain ⟨-, rfl⟩ : false = u ∧ t₁ = t' := by simpa using ht
    exact hend henqueue
  · obtain ⟨⟨o, sumDelay⟩, hloop, hcall⟩ := Exec.bind_eq_ok.mp hcall
    cases o with
    | none =>
      obtain ⟨t₁, henqueue, ht⟩ := Exec.bind_eq_ok.mp hcall
      obtain ⟨-, rfl⟩ : _ = u ∧ t₁ = t' := by simpa using ht
      exact hend henqueue
    | some compEvent =>
      obtain ⟨lists, hholds, hmem⟩ := h
      rw [hholds.get_zero] at hloop
      have hcomp := mem_of_searchLoop (hholds.rep .mOneshotQueue).seg hloop
      obtain ⟨l, m, hl⟩ := List.append_of_mem hcomp
      obtain ⟨k, p, hok, hholds'⟩ := hholds.enqueueBefore (e := e) (fun q' hq' => by
        rw [hmem, he] at hq'
        cases hq') hl
      cases hcall
      refine ⟨(Located.insert hmem he (fun b => ?_) hholds').congr ?_ ?_, rfl⟩
      · rw [hl]
        simp only [List.mem_append, List.mem_cons]
        tauto
      · exact congrArg Prod.fst hok
      · exact congrArg (fun x => Function.update t.queues .mOneshotQueue x.2) hok

/-! ## The tick -/

/-- The events that fire in the next tick: those at the head of the oneshot queue that have no ticks
remaining when the first has been counted down. -/
def dueOneshots (t : GenericTimer R) : List TimerEvent :=
  match Queue.walk t.timerEventLinks (t.queues .mOneshotQueue).pSize
    (t.queues .mOneshotQueue).pHead with
  | [] => []
  | e :: l => (e :: l).takeWhile fun c =>
      (t.setRemainingTicks e (sub32 (t.mRemainingTicks e) 1)).mRemainingTicks c = 0

theorem Holds.walk (h : t.Holds lists) (q : TimerQueue) :
    Queue.walk t.timerEventLinks (t.queues q).pSize (t.queues q).pHead = lists q := by
  have hrep := h.rep q
  rw [hrep.head, hrep.size, Queue.walk_eq_take hrep.seg, List.take_length]

theorem Located.tickOneshots {fired : List TimerEvent} {u : Bool} (h : t.Located loc)
    (hcall : t.tickOneshots = .ok (fired, u, t')) :
    fired = t.dueOneshots ∧ fired.Nodup ∧ (∀ e ∈ fired, loc e = some .mOneshotQueue) ∧
      t'.Located (fun e => if e ∈ fired then none else loc e) ∧
      t'.mTimerEventType = t.mTimerEventType := by
  obtain ⟨lists, hholds, hmem⟩ := h
  have hwalk := hholds.walk .mOneshotQueue
  cases hl : lists .mOneshotQueue with
  | nil =>
    rw [GenericTimer.tickOneshots, if_pos (hholds.size_eq_zero.mpr hl)] at hcall
    cases hcall
    refine ⟨?_, List.nodup_nil, by simp, ⟨lists, hholds, by simpa using hmem⟩, rfl⟩
    rw [dueOneshots, hwalk, hl]
  | cons e l =>
    obtain ⟨k, p, hok, hholds'⟩ := hholds.tickOneshots hl
    rw [hok] at hcall
    cases hcall
    have hnodup := (hholds.rep .mOneshotQueue).nodup
    rw [hl] at hnodup
    have hin : ∀ c ∈ e :: l, loc c = some .mOneshotQueue := fun c hc => (hmem _ c).mp (hl ▸ hc)
    refine ⟨?_, hnodup.sublist (List.takeWhile_sublist _), fun c hc => ?_, ?_, rfl⟩
    · rw [dueOneshots, hwalk, hl]
    · exact hin c ((List.takeWhile_sublist _).subset hc)
    · generalize (fun c => decide (_ = 0)) = due at hholds' ⊢
      have hsplit := (e :: l).takeWhile_append_dropWhile (p := due)
      rw [← hsplit, List.nodup_append] at hnodup
      refine Located.relist hmem (fun b q' hq => ?_) (fun b => ?_) hholds'
      · split
        · next hb =>
          rw [hin b ((List.takeWhile_sublist _).subset hb)]
          simpa using hq.symm
        · rfl
      · split
        · next hb => exact iff_of_false (fun hb' => hnodup.2.2 b hb b hb' rfl) (by simp)
        · next hb =>
          rw [← hmem, hl]
          refine ⟨fun hb' => (List.dropWhile_sublist _).subset hb', fun hb' => ?_⟩
          rw [← hsplit, List.mem_append] at hb'
          exact hb'.resolve_left hb

theorem Located.tickPeriodics {fired : List TimerEvent} {u : Bool} (h : t.Located loc)
    (hcall : t.tickPeriodics = .ok (fired, u, t')) :
    (∀ e ∈ fired, loc e = some .mPeriodicQueue) ∧ t'.Located loc ∧
      t'.mTimerEventType = t.mTimerEventType := by
  obtain ⟨lists, hholds, hmem⟩ := h
  obtain ⟨ticks, hok, -⟩ := hholds.tickPeriodics
  rw [hok] at hcall
  cases hcall
  exact ⟨fun e he => (hmem _ e).mp (List.mem_filter.mp he).1, ⟨lists, hholds, hmem⟩, rfl⟩

/-- What fires is what is due, and it leaves the queue. -/
theorem Located.handleTick {oneshots periodics : List TimerEvent} {u : Bool} (h : t.Located loc)
    (hcall : t.handleTick = .ok (oneshots, periodics, u, t')) :
    oneshots = t.dueOneshots ∧ oneshots.Nodup ∧ (∀ e ∈ oneshots, loc e = some .mOneshotQueue) ∧
      (∀ e ∈ periodics, loc e = some .mPeriodicQueue) ∧
      t'.Located (fun e => if e ∈ oneshots then none else loc e) ∧
      t'.mTimerEventType = t.mTimerEventType := by
  obtain ⟨⟨fired, u₁, t₁⟩, honeshots, hcall⟩ := Exec.bind_eq_ok.mp hcall
  obtain ⟨⟨fired', u₂, t₂⟩, hperiodics, ht⟩ := Exec.bind_eq_ok.mp hcall
  cases ht
  obtain ⟨hdue, hnodup, hfrom, hloc, htype⟩ := h.tickOneshots honeshots
  obtain ⟨hfrom', hloc', htype'⟩ := hloc.tickPeriodics hperiodics
  refine ⟨hdue, hnodup, hfrom, fun e he => ?_, hloc', htype'.trans htype⟩
  have hper := hfrom' e he
  split at hper
  · cases hper
  · exact hper

/-! ## Calls -/

section
variable [DecidableEq R] [Fintype R]

theorem clearSubscribers_located (hcall : t.clearSubscribers e = .ok t') (h : t.Located loc) :
    t'.Located loc ∧ t'.mTimerEventType = t.mTimerEventType := by
  obtain ⟨⟨links, queue⟩, -, ht⟩ := Exec.bind_eq_ok.mp hcall
  cases ht
  exact ⟨h.congr rfl rfl, rfl⟩

theorem addSubscriber_located {trigger : R} (hcall : t.addSubscriber e trigger = .ok t')
    (h : t.Located loc) :
    t'.Located loc ∧ t'.mTimerEventType = t.mTimerEventType := by
  obtain ⟨⟨links, queue⟩, -, ht⟩ := Exec.bind_eq_ok.mp hcall
  cases ht
  exact ⟨h.congr rfl rfl, rfl⟩

/-- An event that is in no queue goes to a pool without its subscribers. -/
theorem giveBack_located {t₁ : GenericTimer R} (hclear : t.clearSubscribers e = .ok t₁)
    (henqueue : t₁.enqueueFast q e = .ok t') (h : t.Located loc) (he : loc e = none) :
    t'.Located (Function.update loc e (some q)) ∧
      t'.mTimerEventType = t.mTimerEventType := by
  obtain ⟨hloc, htype⟩ := clearSubscribers_located hclear h
  obtain ⟨hloc', htype'⟩ := hloc.enqueueFast he henqueue
  exact ⟨hloc', htype'.trans htype⟩

theorem Located.returnOneshotEventToPool (h : t.Located loc) (he : loc e = none)
    (hcall : t.returnOneshotEventToPool e = .ok t') :
    t'.Located (Function.update loc e (some .mOneshotEventPool)) ∧
      t'.mTimerEventType = t.mTimerEventType := by
  obtain ⟨t₁, hclear, henqueue⟩ := Exec.bind_eq_ok.mp hcall
  exact giveBack_located hclear henqueue h he

/-- What a call does to the places of the events and to their types. -/
theorem Located.step {label : Label R} (h : t.Located loc) (hstep : Step t label t') :
    label.From loc ∧ t'.Located (label.relocate loc) ∧
      t'.mTimerEventType = label.retype t.mTimerEventType := by
  have hupdate : ∀ e o, Function.update (Function.update loc e none) e o =
      Function.update loc e o := fun e o => Function.update_idem ..
  cases hstep with
  | @setOneshotEvent _ trigger delay event underflow hdelay hcall =>
    obtain ⟨⟨o, t₁⟩, hdequeue, hcall⟩ := Exec.bind_eq_ok.mp hcall
    have htaken := h.dequeueFirst hdequeue
    cases o with
    | none =>
      cases hcall
      rw [htaken.1]
      exact ⟨trivial, h, rfl⟩
    | some e =>
      obtain ⟨hfrom, hloc, htype⟩ := htaken
      obtain ⟨t₂, hadd, hcall⟩ := Exec.bind_eq_ok.mp hcall
      obtain ⟨⟨u, t₃⟩, henqueue, ht⟩ := Exec.bind_eq_ok.mp hcall
      cases ht
      obtain ⟨hloc₂, htype₂⟩ := addSubscriber_located hadd (hloc.congr rfl rfl)
      obtain ⟨hloc₃, htype₃⟩ := hloc₂.enqueueOneshot (by simp) henqueue
      rw [hupdate] at hloc₃
      refine ⟨hfrom, hloc₃, ?_⟩
      rw [htype₃, htype₂]
      exact congrArg (fun type => Function.update type e _) htype
  | @setPeriodicEvent _ trigger interval event hinterval hcall =>
    obtain ⟨⟨o, t₁⟩, hdequeue, hcall⟩ := Exec.bind_eq_ok.mp hcall
    have htaken := h.dequeueFirst hdequeue
    cases o with
    | none =>
      cases hcall
      rw [htaken.1]
      exact ⟨trivial, h, rfl⟩
    | some e =>
      obtain ⟨hfrom, hloc, htype⟩ := htaken
      obtain ⟨t₂, hadd, hcall⟩ := Exec.bind_eq_ok.mp hcall
      obtain ⟨t₃, henqueue, ht⟩ := Exec.bind_eq_ok.mp hcall
      cases ht
      obtain ⟨hloc₂, htype₂⟩ := addSubscriber_located hadd (hloc.congr rfl rfl)
      obtain ⟨hloc₃, htype₃⟩ := hloc₂.enqueueFast (by simp) henqueue
      rw [hupdate] at hloc₃
      refine ⟨hfrom, hloc₃, ?_⟩
      rw [htype₃, htype₂]
      exact congrArg (fun type => Function.update type e _) htype
  | @cancelOneshotTimerEvent _ e hfind hcall =>
    rw [GenericTimer.cancelOneshotTimerEvent, hfind, Exec.ok_bind] at hcall
    obtain ⟨t₁, hclear, henqueue⟩ := Exec.bind_eq_ok.mp hcall
    have hfrom : loc e = some .mOneshotQueue := by
      obtain ⟨lists, hholds, hmem⟩ := h
      exact (hmem _ e).mp (hholds.mem_of_find hfind)
    have hticks : t.addToNext e = { t with mRemainingTicks := (t.addToNext e).mRemainingTicks } := by
      unfold addToNext
      split <;> rfl
    rw [hticks] at hclear
    have hgone := h.removeElementFromList hfrom
    obtain ⟨hloc, htype⟩ := giveBack_located hclear henqueue (hgone.congr rfl rfl) (by simp)
    rw [hupdate] at hloc
    exact ⟨hfrom, hloc, htype⟩
  | @cancelPeriodicTimerEvent _ e hfind hcall =>
    rw [GenericTimer.cancelPeriodicTimerEvent, hfind, Exec.ok_bind] at hcall
    obtain ⟨t₁, hclear, henqueue⟩ := Exec.bind_eq_ok.mp hcall
    have hfrom : loc e = some .mPeriodicQueue := by
      obtain ⟨lists, hholds, hmem⟩ := h
      exact (hmem _ e).mp (hholds.mem_of_find hfind)
    have hgone := h.removeElementFromList hfrom
    obtain ⟨hloc, htype⟩ := giveBack_located hclear henqueue hgone (by simp)
    rw [hupdate] at hloc
    exact ⟨hfrom, hloc, htype⟩
  | @returnOneshotEventToPool _ e hfind hcall =>
    have hfrom : loc e = none := by
      obtain ⟨lists, hholds, hmem⟩ := h
      by_contra hne
      obtain ⟨q, hq⟩ := Option.ne_none_iff_exists'.mp hne
      exact hholds.find_eq_none (hfind q) ((hmem q e).mpr hq)
    exact ⟨hfrom, h.returnOneshotEventToPool hfrom hcall⟩
  | handleTick hcall =>
    obtain ⟨-, hnodup, hfrom, hfrom', hloc, htype⟩ := h.handleTick hcall
    exact ⟨⟨hnodup, hfrom, hfrom'⟩, hloc, htype⟩

end

/-- After the constructor the first half of the events is in the oneshot pool and the second in the
periodic one. -/
theorem new_located {interval : Nat} (hnew : new interval = .ok t) :
    t.Located fun e =>
      some (if e.val < cTimerPoolSize then .mOneshotEventPool else .mPeriodicEventPool) := by
  obtain ⟨t₁, lists, hok, -, href⟩ := new_refines (R := R) interval
  obtain rfl := Except.ok.inj (hok.symm.trans hnew)
  refine ⟨lists, href.holds, fun q e => ?_⟩
  have hone : e ∈ newAgenda.oneshotPool ↔ e.val < cTimerPoolSize := by
    simp only [newAgenda, List.mem_map, List.mem_finRange, true_and]
    constructor
    · rintro ⟨i, rfl⟩
      exact i.isLt
    · exact fun he => ⟨⟨e.val, he⟩, rfl⟩
  have hper : e ∈ newAgenda.periodicPool ↔ ¬ e.val < cTimerPoolSize := by
    simp only [newAgenda, List.mem_map, List.mem_finRange, true_and]
    constructor
    · rintro ⟨i, rfl⟩
      simp
    · intro he
      exact ⟨⟨e.val - cTimerPoolSize, by omega⟩, Fin.ext (by simp; omega)⟩
  rw [Option.some.injEq]
  cases q with
  | mOneshotEventPool =>
    rw [← href.oneshotPool, hone]
    split <;> simp [*]
  | mPeriodicEventPool =>
    rw [← href.periodicPool, hper]
    split <;> simp [*]
  | mOneshotQueue =>
    rw [← href.mem_oneshots_iff]
    split <;> simp [newAgenda]
  | mPeriodicQueue =>
    rw [← href.mem_periodics_iff]
    split <;> simp [newAgenda]

end GenericTimer

end CyPhOS
