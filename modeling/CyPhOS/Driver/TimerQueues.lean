import Mathlib.Algebra.GroupWithZero.Nat
import CyPhOS.Driver.GenericTimer
import CyPhOS.Lib.DeltaList

/-! # The queues of the software timer

`GenericTimer.Holds t lists` says that the four queues of the timer are the lists `lists`. There is
one lemma for each thing the operations do to a queue, and one for each loop: the search for the
place in the delta queue, the loop that fires what is due, and the loop over the periodic events.
`deltas` are the entries of the oneshot queue, and `Holds.enqueueOneshot` says that what the code does
to them is the insertion of `DeltaList`.
-/

namespace CyPhOS

open LinkedList DeltaList

namespace GenericTimer

variable {R : Type} {t : GenericTimer R} {lists : TimerQueue → List TimerEvent}
  {e : TimerEvent} {q : TimerQueue} {l m : List TimerEvent}

/-! ## Queues -/

/-- The queues of the timer are these lists. -/
abbrev Holds (t : GenericTimer R) (lists : TimerQueue → List TimerEvent) : Prop :=
  Queue.Family t.timerEventLinks t.queues lists

@[simp] theorem setQueue_setQueue {k k' : QueueElements TimerEvent} {p p' : Queue TimerEvent} :
    (t.setQueue q k p).setQueue q k' p' = t.setQueue q k' p' := by
  simp [setQueue]

@[simp] theorem setQueue_self : t.setQueue q t.timerEventLinks (t.queues q) = t := by
  simp [setQueue]

theorem Holds.dequeueFirst_nil (h : t.Holds lists) (hq : lists q = []) :
    t.dequeueFirst q = .ok (none, t) := by
  have hrep := h.rep q
  rw [hq] at hrep
  simp [dequeueFirst, hrep.dequeueFirst_nil]

theorem Holds.dequeueFirst (h : t.Holds lists) (hq : lists q = e :: l) :
    ∃ k p, t.dequeueFirst q = .ok (some e, t.setQueue q k p) ∧
      (t.setQueue q k p).Holds (Function.update lists q l) := by
  obtain ⟨k, p, hok, hfam⟩ := Queue.Family.dequeueFirst_cons h hq
  exact ⟨k, p, by simp [GenericTimer.dequeueFirst, hok], hfam⟩

theorem Holds.enqueueFast (h : t.Holds lists) (he : ∀ q, e ∉ lists q) :
    ∃ k p, t.enqueueFast q e = .ok (t.setQueue q k p) ∧
      (t.setQueue q k p).Holds (Function.update lists q (lists q ++ [e])) := by
  obtain ⟨k, p, hok, hrep, hagree⟩ := (h.rep q).enqueueFast (he q)
  refine ⟨k, p, by simp [GenericTimer.enqueueFast, hok], ?_⟩
  exact h.relink_cons (fun q' hq' => absurd hq' (he q')) hrep (by simp) hagree

theorem Holds.enqueueBefore {c : TimerEvent} (h : t.Holds lists) (he : ∀ q, e ∉ lists q)
    (hq : lists q = l ++ c :: m) :
    ∃ k p, (t.queues q).enqueueBefore t.timerEventLinks e c = (k, p) ∧
      (t.setQueue q k p).Holds (Function.update lists q (l ++ e :: c :: m)) := by
  have hrep := h.rep q
  rw [hq] at hrep
  obtain ⟨k, p, hok, hrep', hagree⟩ := hrep.enqueueBefore (hq ▸ he q)
  refine ⟨k, p, hok, ?_⟩
  refine h.relink_cons (fun q' hq' => absurd hq' (he q')) hrep' ?_ (hq ▸ hagree)
  rw [hq]
  intro b
  simp only [List.mem_append, List.mem_cons]
  tauto

theorem Holds.removeElementFromList (h : t.Holds lists) (hq : lists q = l ++ e :: m) :
    ∃ k p, (t.queues q).removeElementFromList t.timerEventLinks e = (k, p) ∧
      (t.setQueue q k p).Holds (Function.update lists q (l ++ m)) := by
  have hrep := h.rep q
  rw [hq] at hrep
  obtain ⟨k, p, hok, hrep', hagree, -⟩ := hrep.removeElementFromList
  refine ⟨k, p, hok, h.relink_self hrep' ?_ (hq ▸ hagree)⟩
  rw [hq]
  exact List.append_subset.mpr ⟨List.subset_append_left _ _,
    fun b hb => List.mem_append_right _ (List.mem_cons_of_mem _ hb)⟩

theorem Holds.find (h : t.Holds lists) (he : e ∈ lists q) :
    (t.queues q).find t.timerEventLinks (· == e) = .ok (some e) :=
  (h.rep q).find_mem he

theorem Holds.find_eq_none (h : t.Holds lists)
    (hfind : (t.queues q).find t.timerEventLinks (· == e) = .ok none) : e ∉ lists q := by
  rw [(h.rep q).find] at hfind
  intro he
  exact absurd (List.find?_eq_none.mp (Except.ok.inj hfind) e he) (by simp)

theorem Holds.mem_of_find (h : t.Holds lists)
    (hfind : (t.queues q).find t.timerEventLinks (· == e) = .ok (some e)) : e ∈ lists q := by
  rw [(h.rep q).find] at hfind
  exact List.mem_of_find?_eq_some (Except.ok.inj hfind)

theorem Holds.size_eq_zero (h : t.Holds lists) : (t.queues q).pSize = 0 ↔ lists q = [] := by
  rw [(h.rep q).size, List.length_eq_zero_iff]

theorem Holds.get_zero (h : t.Holds lists) : t.get q 0 = (lists q).head? := by
  rw [GenericTimer.get, (h.rep q).get, List.head?_eq_getElem?]

/-! ## Subscribers -/

/-- A timer event has no subscriber, or the one it was set for. -/
def AtMostOne (p : Queue R) : Prop :=
  p = Queue.new ∨ ∃ trigger, p = { pHead := some trigger, pTail := some trigger, pSize := 1 }

section
variable [DecidableEq R] [Fintype R]

theorem addSubscriber_free (h : t.mSubscribers e = Queue.new) (trigger : R) :
    ∃ k p, AtMostOne p ∧ t.addSubscriber e trigger =
      .ok { t with triggerLinks := k, mSubscribers := Function.update t.mSubscribers e p } := by
  refine ⟨t.triggerLinks.clear trigger, ⟨some trigger, some trigger, 1⟩, .inr ⟨trigger, rfl⟩, ?_⟩
  have henqueue : Queue.new.enqueue t.triggerLinks trigger =
      .ok (t.triggerLinks.clear trigger, ⟨some trigger, some trigger, 1⟩) := by
    rw [Queue.enqueue, (Queue.Rep.new t.triggerLinks).find]
    rfl
  simp [addSubscriber, h, henqueue]

theorem clearSubscribers_atMostOne (h : AtMostOne (t.mSubscribers e)) :
    ∃ k, t.clearSubscribers e = .ok
      { t with triggerLinks := k, mSubscribers := Function.update t.mSubscribers e Queue.new } := by
  rcases h with h | ⟨trigger, h⟩
  · refine ⟨t.triggerLinks, ?_⟩
    rw [clearSubscribers, h]
    simp [Queue.clearList, Queue.clearLoop, Queue.dequeueFirst, Queue.new]
  · refine ⟨t.triggerLinks.clear trigger, ?_⟩
    have hcard : 0 < Fintype.card R := Fintype.card_pos_iff.mpr ⟨trigger⟩
    obtain ⟨n, hn⟩ := Nat.exists_eq_add_of_le' hcard
    rw [clearSubscribers, h, Queue.clearList, hn]
    simp [Queue.clearLoop, Queue.dequeueFirst, Queue.new, decrementSize]

end

/-! ## The delta queue -/

/-- The entries of the delta queue. -/
def deltas (t : GenericTimer R) (l : List TimerEvent) : List (TimerEvent × Nat) :=
  l.map fun e => (e, t.mRemainingTicks e)

/-- The ticks up to the last of the events. -/
def sumTicks (t : GenericTimer R) (l : List TimerEvent) : Nat := ((t.deltas l).map Prod.snd).sum

@[simp] theorem deltas_nil : t.deltas [] = [] := rfl

@[simp] theorem deltas_cons : t.deltas (e :: l) = (e, t.mRemainingTicks e) :: t.deltas l := rfl

@[simp] theorem deltas_append : t.deltas (l ++ m) = t.deltas l ++ t.deltas m := List.map_append

@[simp] theorem deltas_map_fst : (t.deltas l).map Prod.fst = l := by
  rw [deltas, List.map_map]
  exact List.map_id l

@[simp] theorem sumTicks_nil : t.sumTicks [] = 0 := rfl

@[simp] theorem sumTicks_cons : t.sumTicks (e :: l) = t.mRemainingTicks e + t.sumTicks l :=
  List.sum_cons

@[simp] theorem sumTicks_append : t.sumTicks (l ++ m) = t.sumTicks l + t.sumTicks m := by
  simp [sumTicks]

theorem deltas_congr {t' : GenericTimer R}
    (h : ∀ e ∈ l, t'.mRemainingTicks e = t.mRemainingTicks e) : t'.deltas l = t.deltas l :=
  List.map_congr_left fun e he => by rw [h e he]

theorem setRemainingTicks_of_ne {c : TimerEvent} {n : Nat} (h : c ≠ e) :
    (t.setRemainingTicks e n).mRemainingTicks c = t.mRemainingTicks c :=
  Function.update_of_ne h _ _

@[simp] theorem setRemainingTicks_self {n : Nat} :
    (t.setRemainingTicks e n).mRemainingTicks e = n :=
  Function.update_self _ _ _

/-- Counting down other events does not change the entries of the list. -/
theorem deltas_setRemainingTicks {n : Nat} (h : e ∉ l) :
    (t.setRemainingTicks e n).deltas l = t.deltas l :=
  deltas_congr fun _ hc => setRemainingTicks_of_ne (ne_of_mem_of_not_mem hc h)

/-- The loop stops at the first event due later, or at the end with the ticks of all. -/
theorem searchLoop_eq {r s fuel : Nat} {p : Option TimerEvent}
    (hseg : Seg t.timerEventLinks.pNext t.timerEventLinks.pPrevious p l none)
    (hfuel : l.length ≤ fuel) (hsum : s + t.sumTicks l < 2 ^ 32) (hs : s ≤ r) :
    (t.searchLoop r fuel l.head? s = .ok (none, s + t.sumTicks l) ∧ s + t.sumTicks l ≤ r) ∨
    ∃ m c n, l = m ++ c :: n ∧ s + t.sumTicks m ≤ r ∧
      r < s + t.sumTicks m + t.mRemainingTicks c ∧
      t.searchLoop r fuel l.head? s =
        .ok (some c, s + t.sumTicks m + t.mRemainingTicks c) := by
  induction l generalizing s fuel p with
  | nil =>
    refine .inl ⟨?_, hs⟩
    cases fuel <;> rfl
  | cons c l ih =>
    obtain ⟨fuel, rfl⟩ := Nat.exists_eq_add_of_le' (Nat.lt_of_lt_of_le l.length.succ_pos hfuel)
    rw [seg_cons, Option.or_none] at hseg
    rw [sumTicks_cons] at hsum
    have hadd : add32 s (t.mRemainingTicks c) = s + t.mRemainingTicks c := add32_eq (by omega)
    rcases Nat.lt_or_ge r (s + t.mRemainingTicks c) with hlt | hge
    · refine .inr ⟨[], c, l, rfl, hs, hlt, ?_⟩
      simp [searchLoop, hadd, hlt]
    · have hnext : t.searchLoop r (fuel + 1) (some c) s =
          t.searchLoop r fuel l.head? (s + t.mRemainingTicks c) := by
        rw [searchLoop, hadd, if_neg hge.not_gt, hseg.2.1]
      have hlen : l.length ≤ fuel := Nat.le_of_succ_le_succ hfuel
      rw [List.head?_cons, hnext, sumTicks_cons, ← Nat.add_assoc]
      rcases ih hseg.2.2 hlen (by omega) hge with hnone | ⟨m, c', n, rfl, hle, hlt, hok⟩
      · exact .inl hnone
      · refine .inr ⟨c :: m, c', n, rfl, ?_⟩
        rw [sumTicks_cons, ← Nat.add_assoc]
        exact ⟨hle, hlt, hok⟩

/-- Splitting the difference of the event behind sets the entries of the two events only. -/
theorem deltas_splitTicks {c : TimerEvent} {m n : List TimerEvent} {i j : Nat}
    (hnodup : (m ++ c :: n).Nodup) (he : e ∉ m ++ c :: n) :
    ((t.setRemainingTicks e i).setRemainingTicks c j).deltas (m ++ e :: c :: n) =
      t.deltas m ++ (e, i) :: (c, j) :: t.deltas n := by
  obtain ⟨hem, hec, hen⟩ : e ∉ m ∧ e ≠ c ∧ e ∉ n := by simpa using he
  rw [List.nodup_append, List.nodup_cons] at hnodup
  have hcm : c ∉ m := fun hc => hnodup.2.2 c hc c (List.mem_cons_self ..) rfl
  have hcn : c ∉ n := hnodup.2.1.1
  simp only [deltas_append, deltas_cons, deltas_setRemainingTicks hcm,
    deltas_setRemainingTicks hem, deltas_setRemainingTicks hcn, deltas_setRemainingTicks hen,
    setRemainingTicks_self, setRemainingTicks_of_ne hec]

/-- An event due no earlier than all others goes to the end, with the ticks left over. -/
theorem Holds.enqueueLast {r : Nat} (h : t.Holds lists) (he : ∀ q, e ∉ lists q)
    (hle : t.sumTicks (lists .mOneshotQueue) ≤ r) :
    ∃ k p, (t.setRemainingTicks e (r - t.sumTicks (lists .mOneshotQueue))).enqueueFast
        .mOneshotQueue e =
      .ok ((t.setRemainingTicks e (r - t.sumTicks (lists .mOneshotQueue))).setQueue
        .mOneshotQueue k p) ∧
      ((t.setRemainingTicks e (r - t.sumTicks (lists .mOneshotQueue))).setQueue
        .mOneshotQueue k p).Holds
        (Function.update lists .mOneshotQueue (lists .mOneshotQueue ++ [e])) ∧
      (t.setRemainingTicks e (r - t.sumTicks (lists .mOneshotQueue))).deltas
          (lists .mOneshotQueue ++ [e]) =
        DeltaList.insert e r (t.deltas (lists .mOneshotQueue)) := by
  -- the ticks are no part of what the queues hold
  have hholds : (t.setRemainingTicks e (r - t.sumTicks (lists .mOneshotQueue))).Holds lists := h
  obtain ⟨k, p, hok, hholds⟩ := hholds.enqueueFast (q := .mOneshotQueue) he
  refine ⟨k, p, hok, hholds, ?_⟩
  rw [insert_of_sum_le hle, deltas_append, deltas_setRemainingTicks (he _), deltas_cons,
    setRemainingTicks_self]
  rfl

/-- Inserting into the delta queue is inserting into the delta list. -/
theorem Holds.enqueueOneshot {r : Nat} (h : t.Holds lists) (he : ∀ q, e ∉ lists q)
    (hsum : t.sumTicks (lists .mOneshotQueue) < 2 ^ 32) (hr : r < 2 ^ 32) :
    ∃ k p ticks l, t.enqueueOneshot e r =
        .ok (false, { t with mRemainingTicks := ticks }.setQueue .mOneshotQueue k p) ∧
      ({ t with mRemainingTicks := ticks }.setQueue .mOneshotQueue k p).Holds
        (Function.update lists .mOneshotQueue l) ∧
      { t with mRemainingTicks := ticks }.deltas l =
        DeltaList.insert e r (t.deltas (lists .mOneshotQueue)) ∧
      ∀ c ∉ e :: lists .mOneshotQueue, ticks c = t.mRemainingTicks c := by
  have hrep := h.rep .mOneshotQueue
  have hfirst := h.get_zero (q := .mOneshotQueue)
  have hlast := h.enqueueLast (r := r) he
  generalize hl : lists .mOneshotQueue = l at *
  have hel : e ∉ l := hl ▸ he _
  have hother : ∀ {r' c}, c ∉ e :: l → (t.setRemainingTicks e r').mRemainingTicks c =
      t.mRemainingTicks c :=
    fun hc => setRemainingTicks_of_ne (List.ne_of_not_mem_cons hc)
  cases l with
  | nil =>
    have hsize : (t.queues .mOneshotQueue).pSize = 0 := hrep.size
    obtain ⟨k, p, hok, hholds, hdeltas⟩ := hlast (Nat.zero_le r)
    rw [sumTicks_nil, Nat.sub_zero] at hok hholds hdeltas
    refine ⟨k, p, _, [e], ?_, hholds, hdeltas, fun c => hother⟩
    rw [GenericTimer.enqueueOneshot, if_pos hsize]
    simp [hok]
    rfl
  | cons b l =>
    have hsize : (t.queues .mOneshotQueue).pSize ≠ 0 := by simp [hrep.size]
    have hloop := searchLoop_eq hrep.seg hrep.nodup.length_le_card (s := 0) (by simpa using hsum)
      (Nat.zero_le r)
    simp only [Nat.zero_add] at hloop
    rcases hloop with ⟨hok, hle⟩ | ⟨m, c, n, hsplit, hle, hlt, hok⟩
    · obtain ⟨k, p, hok', hholds, hdeltas⟩ := hlast hle
      refine ⟨k, p, _, _, ?_, hholds, hdeltas, fun c => hother⟩
      have hticks : sub32 r (t.sumTicks (b :: l)) = r - t.sumTicks (b :: l) := sub32_eq hle hr
      rw [GenericTimer.enqueueOneshot, if_neg hsize, hfirst, hok]
      simp only [Exec.ok_bind, Exec.pure_eq, hticks, hok', decide_eq_false hle.not_gt]
      rfl
    · -- the difference of the event behind is split
      rw [hsplit] at hl hel hsum
      have hec : c ≠ e := fun heq => hel (by simp [heq])
      rw [sumTicks_append, sumTicks_cons] at hsum
      have hbefore : sub32 (t.sumTicks m + t.mRemainingTicks c) (t.mRemainingTicks c) =
          t.sumTicks m := by
        rw [sub32_eq (Nat.le_add_left _ _) (by omega), Nat.add_sub_cancel]
      have hticks : sub32 r (t.sumTicks m) = r - t.sumTicks m := sub32_eq hle hr
      have hrest : sub32 (t.mRemainingTicks c) (r - t.sumTicks m) =
          t.mRemainingTicks c - (r - t.sumTicks m) := sub32_eq (by omega) (by omega)
      have hlate : decide (t.sumTicks m + t.mRemainingTicks c < t.mRemainingTicks c ∨
          r < t.sumTicks m ∨ t.mRemainingTicks c < r - t.sumTicks m) = false :=
        decide_eq_false (by omega)
      obtain ⟨k, p, hok', hholds⟩ := h.enqueueBefore he hl
      let t' := (t.setRemainingTicks e (r - t.sumTicks m)).setRemainingTicks c
        (t.mRemainingTicks c - (r - t.sumTicks m))
      have hrun : t.enqueueOneshot e r = .ok (false, t'.setQueue .mOneshotQueue
          ((t.queues .mOneshotQueue).enqueueBefore t.timerEventLinks e c).1
          ((t.queues .mOneshotQueue).enqueueBefore t.timerEventLinks e c).2) := by
        rw [GenericTimer.enqueueOneshot, if_neg hsize, hfirst, hok]
        simp only [Exec.ok_bind, Exec.pure_eq, hbefore, hticks, setRemainingTicks_of_ne hec, hrest,
          hlate]
        rfl
      rw [hok'] at hrun
      refine ⟨k, p, t'.mRemainingTicks, m ++ e :: c :: n, hrun, hholds, ?_, fun d hd => ?_⟩
      · have hinsert : DeltaList.insert e r (t.deltas (m ++ c :: n)) = t.deltas m ++
            (e, r - t.sumTicks m) :: (c, t.mRemainingTicks c - (r - t.sumTicks m)) ::
              t.deltas n := by
          rw [deltas_append, deltas_cons]
          exact insert_append hle hlt
        rw [hsplit, hinsert]
        exact deltas_splitTicks (hsplit ▸ hrep.nodup) hel
      · rw [hsplit] at hd
        have hdc : d ≠ c := fun heq => hd (by simp [heq])
        have hde : d ≠ e := fun heq => hd (by simp [heq])
        exact (setRemainingTicks_of_ne hdc).trans (setRemainingTicks_of_ne hde)

/-! ## The loops of the tick -/

/-- The loop takes off the queue what has no ticks remaining at its head. -/
theorem Holds.fireLoop {fuel : Nat} (h : t.Holds lists) (fired : List TimerEvent)
    (hfuel : (lists .mOneshotQueue).length < fuel) :
    ∃ k p, t.fireLoop fuel fired =
        .ok (fired ++ (lists .mOneshotQueue).takeWhile fun e => t.mRemainingTicks e = 0,
          t.setQueue .mOneshotQueue k p) ∧
      (t.setQueue .mOneshotQueue k p).Holds (Function.update lists .mOneshotQueue
        ((lists .mOneshotQueue).dropWhile fun e => t.mRemainingTicks e = 0)) := by
  generalize hl : lists .mOneshotQueue = l at *
  induction l generalizing t lists fuel fired with
  | nil =>
    obtain ⟨fuel, rfl⟩ := Nat.exists_eq_add_of_le' (Nat.lt_of_le_of_lt (Nat.zero_le _) hfuel)
    refine ⟨t.timerEventLinks, t.queues .mOneshotQueue, ?_, ?_⟩
    · rw [GenericTimer.fireLoop, if_pos (h.size_eq_zero.mpr hl), setQueue_self, List.takeWhile_nil,
        List.append_nil]
    · rw [setQueue_self, List.dropWhile_nil, ← hl, Function.update_eq_self]
      exact h
  | cons e l ih =>
    obtain ⟨fuel, rfl⟩ := Nat.exists_eq_add_of_le' (Nat.lt_of_le_of_lt (Nat.zero_le _) hfuel)
    have hsize : (t.queues .mOneshotQueue).pSize ≠ 0 := by
      rw [Ne, h.size_eq_zero, hl]
      exact List.cons_ne_nil e l
    have hfirst : t.get .mOneshotQueue 0 = some e := by rw [h.get_zero, hl, List.head?_cons]
    rcases Nat.eq_zero_or_pos (t.mRemainingTicks e) with hzero | hpos
    · obtain ⟨k, p, hok, hholds⟩ := h.dequeueFirst hl
      obtain ⟨k', p', hok', hholds'⟩ := ih hholds (fired ++ [e])
        (Function.update_self ..) (Nat.lt_of_succ_lt_succ hfuel)
      rw [setQueue_setQueue] at hok' hholds'
      rw [Function.update_idem] at hholds'
      refine ⟨k', p', ?_, ?_⟩
      · simp only [GenericTimer.fireLoop, if_neg hsize, hfirst, hzero, if_true, hok, Exec.ok_bind,
          hok']
        rw [List.takeWhile_cons_of_pos (by simpa using hzero), List.append_assoc]
        rfl
      · rw [List.dropWhile_cons_of_pos (by simpa using hzero)]
        exact hholds'
    · refine ⟨t.timerEventLinks, t.queues .mOneshotQueue, ?_, ?_⟩
      · rw [List.takeWhile_cons_of_neg (by simpa using hpos.ne'), setQueue_self, List.append_nil]
        simp only [GenericTimer.fireLoop, if_neg hsize, hfirst, if_neg hpos.ne']
      · rw [List.dropWhile_cons_of_neg (by simpa using hpos.ne'), setQueue_self, ← hl,
          Function.update_eq_self]
        exact h

/-- The first event is counted down, and everything at the head without ticks remaining fires. -/
theorem Holds.tickOneshots (h : t.Holds lists) (hl : lists .mOneshotQueue = e :: l) :
    let t' := t.setRemainingTicks e (sub32 (t.mRemainingTicks e) 1)
    ∃ k p, t.tickOneshots =
        .ok ((e :: l).takeWhile fun c => t'.mRemainingTicks c = 0,
          decide (t.mRemainingTicks e < 1), t'.setQueue .mOneshotQueue k p) ∧
      (t'.setQueue .mOneshotQueue k p).Holds (Function.update lists .mOneshotQueue
        ((e :: l).dropWhile fun c => t'.mRemainingTicks c = 0)) := by
  intro t'
  have hholds : t'.Holds lists := h
  have hsize : (t.queues .mOneshotQueue).pSize ≠ 0 := by
    rw [Ne, h.size_eq_zero, hl]
    exact List.cons_ne_nil e l
  have hfirst : t.get .mOneshotQueue 0 = some e := by rw [h.get_zero, hl, List.head?_cons]
  have hlen : (e :: l).length < Fintype.card TimerEvent + 1 :=
    Nat.lt_succ_of_le (hl ▸ (h.rep .mOneshotQueue).nodup.length_le_card)
  rcases Decidable.em (t'.mRemainingTicks e = 0) with hzero | hne
  · obtain ⟨k, p, hok, hholds⟩ := hholds.dequeueFirst hl
    have hlen' : (Function.update lists .mOneshotQueue l .mOneshotQueue).length <
        Fintype.card TimerEvent + 1 := by
      rw [Function.update_self]
      rw [List.length_cons] at hlen
      omega
    obtain ⟨k', p', hok', hholds'⟩ := hholds.fireLoop [e] hlen'
    rw [setQueue_setQueue] at hok' hholds'
    rw [Function.update_self] at hok' hholds'
    rw [Function.update_idem] at hholds'
    refine ⟨k', p', ?_, ?_⟩
    · rw [GenericTimer.tickOneshots, if_neg hsize, hfirst]
      dsimp only
      rw [if_pos hzero, hok, Exec.ok_bind, Exec.pure_eq, Exec.ok_bind]
      dsimp only
      rw [hok', List.takeWhile_cons_of_pos (by simpa using hzero)]
      rfl
    · rw [List.dropWhile_cons_of_pos (by simpa using hzero)]
      exact hholds'
  · obtain ⟨k, p, hok, hholds⟩ := hholds.fireLoop [] (hl ▸ hlen)
    rw [hl] at hok hholds
    refine ⟨k, p, ?_, hholds⟩
    rw [GenericTimer.tickOneshots, if_neg hsize, hfirst]
    dsimp only
    rw [if_neg hne, Exec.pure_eq, Exec.ok_bind]
    dsimp only
    rw [hok]
    rfl

/-- The loop counts every event down once, and reloads what has come to zero. -/
theorem periodicLoop_eq {fuel : Nat} {p : Option TimerEvent} (fired : List TimerEvent)
    (underflow : Bool) (hseg : Seg t.timerEventLinks.pNext t.timerEventLinks.pPrevious p l none)
    (hnodup : l.Nodup) (hfuel : l.length ≤ fuel) :
    ∃ ticks, periodicLoop fuel l.head? t fired underflow =
        .ok (fired ++ l.filter fun e => sub32 (t.mRemainingTicks e) 1 = 0,
          underflow || l.any fun e => t.mRemainingTicks e < 1,
          { t with mRemainingTicks := ticks }) ∧
      (∀ e ∈ l, ticks e = if sub32 (t.mRemainingTicks e) 1 = 0 then t.mInterval e
        else sub32 (t.mRemainingTicks e) 1) ∧
      ∀ e ∉ l, ticks e = t.mRemainingTicks e := by
  induction l generalizing t fuel p fired underflow with
  | nil =>
    refine ⟨t.mRemainingTicks, ?_, by simp, fun _ _ => rfl⟩
    cases fuel <;> simp [periodicLoop]
  | cons e l ih =>
    obtain ⟨fuel, rfl⟩ := Nat.exists_eq_add_of_le' (Nat.lt_of_lt_of_le l.length.succ_pos hfuel)
    obtain ⟨hel, hl⟩ := List.nodup_cons.mp hnodup
    rw [seg_cons, Option.or_none] at hseg
    -- after its own round the ticks of an event are not touched
    let n := if sub32 (t.mRemainingTicks e) 1 = 0 then t.mInterval e
      else sub32 (t.mRemainingTicks e) 1
    have hother : ∀ {c}, c ≠ e → (t.setRemainingTicks e n).mRemainingTicks c =
        t.mRemainingTicks c := setRemainingTicks_of_ne
    obtain ⟨ticks, hok, hin, hout⟩ := ih (t := t.setRemainingTicks e n)
      (fired ++ [e].filter fun e => sub32 (t.mRemainingTicks e) 1 = 0)
      (underflow || decide (t.mRemainingTicks e < 1)) hseg.2.2 hl
      (Nat.le_of_succ_le_succ hfuel)
    have hstep : periodicLoop (fuel + 1) (some e) t fired underflow =
        periodicLoop fuel l.head? (t.setRemainingTicks e n)
          (fired ++ [e].filter fun e => sub32 (t.mRemainingTicks e) 1 = 0)
          (underflow || decide (t.mRemainingTicks e < 1)) := by
      simp only [periodicLoop, setRemainingTicks_self]
      split
      · next hzero =>
        have hn : n = t.mInterval e := if_pos hzero
        simp [hn, hzero, setRemainingTicks, hseg.2.1]
      · next hne =>
        have hn : n = sub32 (t.mRemainingTicks e) 1 := if_neg hne
        simp [hn, hne, setRemainingTicks, hseg.2.1]
    have hrest : ∀ c ∈ l, (t.setRemainingTicks e n).mRemainingTicks c = t.mRemainingTicks c :=
      fun c hc => hother (ne_of_mem_of_not_mem hc hel)
    refine ⟨ticks, ?_, ?_, ?_⟩
    · have hfilter : (l.filter fun c => sub32 ((t.setRemainingTicks e n).mRemainingTicks c) 1 = 0) =
          l.filter fun c => sub32 (t.mRemainingTicks c) 1 = 0 :=
        List.filter_congr fun c hc => by rw [hrest c hc]
      have hany : (l.any fun c => (t.setRemainingTicks e n).mRemainingTicks c < 1) =
          l.any fun c => t.mRemainingTicks c < 1 := by
        rw [Bool.eq_iff_iff, List.any_eq_true, List.any_eq_true]
        exact exists_congr fun c => and_congr_right fun hc => by rw [hrest c hc]
      rw [List.head?_cons, hstep, hok, hfilter, hany, List.append_assoc, ← List.filter_append,
        List.any_cons, Bool.or_assoc]
      rfl
    · intro c hc
      rcases List.mem_cons.mp hc with rfl | hc
      · rw [hout c hel, setRemainingTicks_self]
      · rw [hin c hc, hrest c hc]
        rfl
    · intro c hc
      rw [List.mem_cons, not_or] at hc
      rw [hout c hc.2, hother hc.1]

theorem Holds.tickPeriodics (h : t.Holds lists) :
    ∃ ticks, t.tickPeriodics =
        .ok ((lists .mPeriodicQueue).filter fun e => sub32 (t.mRemainingTicks e) 1 = 0,
          (lists .mPeriodicQueue).any fun e => t.mRemainingTicks e < 1,
          { t with mRemainingTicks := ticks }) ∧
      (∀ e ∈ lists .mPeriodicQueue, ticks e = if sub32 (t.mRemainingTicks e) 1 = 0
        then t.mInterval e else sub32 (t.mRemainingTicks e) 1) ∧
      ∀ e ∉ lists .mPeriodicQueue, ticks e = t.mRemainingTicks e := by
  have hrep := h.rep .mPeriodicQueue
  cases hl : lists .mPeriodicQueue with
  | nil =>
    have hsize : (t.queues .mPeriodicQueue).pSize = 0 := h.size_eq_zero.mpr hl
    refine ⟨t.mRemainingTicks, ?_, by simp, fun _ _ => rfl⟩
    rw [GenericTimer.tickPeriodics, if_pos hsize]
    rfl
  | cons e l =>
    have hsize : (t.queues .mPeriodicQueue).pSize ≠ 0 := by
      rw [Ne, h.size_eq_zero, hl]
      exact List.cons_ne_nil e l
    obtain ⟨ticks, hok, hticks⟩ := periodicLoop_eq [] false (hl ▸ hrep.seg)
      (hl ▸ hrep.nodup) (hl ▸ hrep.nodup).length_le_card
    refine ⟨ticks, ?_, hticks⟩
    rw [GenericTimer.tickPeriodics, if_neg hsize, h.get_zero, hl, hok, List.nil_append,
      Bool.false_or]

end GenericTimer
end CyPhOS
