import CyPhOS.Common.Queue
import CyPhOS.EventHandling.Trigger

/-! # The priority queue of tasks

An `EventPriorityQueue` is a `Queue` of tasks with its own `enqueue`, which keeps the list sorted by
the priority of the triggers, and `dequeueHighestPriority`, which removes the first task it can
lock. When a lock is refused the scan goes on behind all tasks of that priority.

`tryTaskLock` is a parameter of the scan, a call on some state `σ`; the scan passes the state from
one attempt to the next.
-/

namespace CyPhOS

open LinkedList

namespace EventPriorityQueue

variable {T O σ : Type} [DecidableEq T] (trigger : T → Option (Trigger O))

/-- The loops that follow `pNext` to the first task whose trigger satisfies `stop`. -/
def walkTasks (k : QueueElements T) (stop : Trigger O → Bool) :
    Nat → Option T → Exec (Option T)
  | _, none => .ok none
  | 0, some _ => .error .hang
  | fuel + 1, some curElement => do
    if stop (← derefTrigger trigger curElement) then pure (some curElement)
    else walkTasks k stop fuel (k.pNext curElement)

/-- Enqueue behind the last task whose priority is not lower. -/
def enqueue [Fintype T] (k : QueueElements T) (q : Queue T) (eventtask : T) :
    Exec (QueueElements T × Queue T) := do
  let prio := (← derefTrigger trigger eventtask).pPriority
  match q.pHead with
  | none =>
    pure (k.clear eventtask,
      { pHead := some eventtask, pTail := some eventtask, pSize := q.pSize + 1 })
  | some head =>
    match ← walkTasks trigger k (fun tr => decide (tr.pPriority < prio)) (Fintype.card T)
        (some head) with
    | none =>
      let k := k.setNext (some eventtask) none
      let k := k.setPrevious (some eventtask) q.pTail
      match q.pTail with
      | none => .error .nullDereference
      | some tail =>
        let k := k.setNext (some tail) (some eventtask)
        pure (k, { q with pTail := some eventtask, pSize := q.pSize + 1 })
    | some curElement =>
      if curElement = head then
        let k := k.setPrevious (some curElement) (some eventtask)
        let k := k.setNext (some eventtask) (some curElement)
        let k := k.setPrevious (some eventtask) none
        pure (k, { q with pHead := some eventtask, pSize := q.pSize + 1 })
      else
        let k := k.setNext (some eventtask) (some curElement)
        let k := k.setPrevious (some eventtask) (k.pPrevious curElement)
        match k.pPrevious eventtask with
        | none => .error .nullDereference
        | some previous =>
          let k := k.setNext (some previous) (some eventtask)
          let k := k.setPrevious (some curElement) (some eventtask)
          pure (k, { q with pSize := q.pSize + 1 })

/-- The scan of `dequeueHighestPriority`: the first task that could be locked. -/
def lockFirst [Fintype T] (tryTaskLock : σ → T → Exec (Bool × σ)) (k : QueueElements T) :
    Nat → Option T → σ → Exec (Option T × σ)
  | _, none, s => .ok (none, s)
  | 0, some _, _ => .error .hang
  | fuel + 1, some retEl, s => do
    let (locked, s) ← tryTaskLock s retEl
    if locked then pure (some retEl, s)
    else
      let curPriority := (← derefTrigger trigger retEl).pPriority
      let next ← walkTasks trigger k (fun tr => tr.pPriority != curPriority)
        (Fintype.card T) (some retEl)
      lockFirst tryTaskLock k fuel next s

def dequeueHighestPriority [Fintype T] (tryTaskLock : σ → T → Exec (Bool × σ))
    (k : QueueElements T) (q : Queue T) (s : σ) :
    Exec (Option T × QueueElements T × Queue T × σ) := do
  match ← lockFirst trigger tryTaskLock k (Fintype.card T) q.pHead s with
  | (none, s) => pure (none, k, q, s)
  | (some retEl, s) =>
    let (k, q) := q.removeElementFromList k retEl
    pure (some retEl, k, q, s)

/-! ## What the loops find -/

section
variable {trigger} {k : QueueElements T} {q : Queue T} {l : List T} {a : T} {tr : Trigger O}

omit [DecidableEq T] in
/-- On the rest `l` of a list the loop ends at the first task that satisfies `stop`. -/
theorem walkTasks_eq (stop : Trigger O → Bool) {p : Option T} {fuel : Nat}
    (h : Seg k.pNext k.pPrevious p l none) (hfuel : l.length ≤ fuel)
    (hl : ∀ t ∈ l, (trigger t).isSome) :
    walkTasks trigger k stop fuel l.head? =
      .ok (l.dropWhile fun t => !(trigger t).any stop).head? := by
  induction l generalizing p fuel with
  | nil => cases fuel <;> rfl
  | cons a l ih =>
    obtain ⟨fuel, rfl⟩ := Nat.exists_eq_add_of_le' (Nat.lt_of_lt_of_le (Nat.succ_pos _) hfuel)
    obtain ⟨tr, htr⟩ := Option.isSome_iff_exists.mp (hl a (by simp))
    obtain ⟨-, hnext, h⟩ := h
    rw [Option.or_none] at hnext
    have hrest := ih h (Nat.le_of_succ_le_succ hfuel) fun t ht => hl t (.tail a ht)
    cases hstop : stop tr with
    | true => simp [walkTasks, derefTrigger, htr, hstop]
    | false => simp [walkTasks, derefTrigger, htr, hstop, hnext, hrest]

/-- The tasks that stay in front of a new one of priority `prio`. -/
def staysInFront (trigger : T → Option (Trigger O)) (prio : Nat) (t : T) : Bool :=
  !(trigger t).any fun tr => decide (tr.pPriority < prio)

omit [DecidableEq T] in
theorem takeWhile_append_of_dropWhile {prio : Nat} {m : List T}
    (hdrop : l.dropWhile (staysInFront trigger prio) = m) :
    l = l.takeWhile (staysInFront trigger prio) ++ m := by
  rw [← hdrop, List.takeWhile_append_dropWhile]

omit [DecidableEq T] in
/-- The loop of `enqueue`. -/
theorem walkTasks_enqueue [Fintype T] (prio : Nat) (h : q.Rep k l)
    (hl : ∀ t ∈ l, (trigger t).isSome) :
    walkTasks trigger k (fun other => decide (other.pPriority < prio)) (Fintype.card T) q.pHead =
      .ok (l.dropWhile (staysInFront trigger prio)).head? := by
  rw [h.head]
  exact walkTasks_eq _ h.seg h.nodup.length_le_card hl

/-- Behind all tasks: the writes are those of `enqueueFast`. -/
theorem enqueue_eq_enqueueFast [Fintype T] (h : q.Rep k l) (htr : trigger a = some tr)
    (hl : ∀ t ∈ l, (trigger t).isSome)
    (hdrop : l.dropWhile (staysInFront trigger tr.pPriority) = []) :
    enqueue trigger k q a = q.enqueueFast k a := by
  have hwalk := walkTasks_enqueue tr.pPriority h hl
  rw [hdrop, List.head?_nil] at hwalk
  rw [enqueue, derefTrigger_eq_ok.mpr htr, Exec.ok_bind, Queue.enqueueFast]
  cases hhead : q.pHead with
  | none =>
    have hnil : l = [] := by simpa [hhead, eq_comm] using h.head
    simp [h.tail, hnil]
  | some head =>
    rw [hhead] at hwalk
    simp only [hwalk, Exec.ok_bind, reduceCtorEq, false_and, if_false]
    cases hlast : q.pTail with
    | none => rfl
    | some tail => rfl

/-- In front of `b`: the writes are those of `enqueueBefore`, in another order. -/
theorem enqueue_eq_enqueueBefore [Fintype T] {b : T} {m : List T} (h : q.Rep k l) (ha : a ∉ l)
    (htr : trigger a = some tr) (hl : ∀ t ∈ l, (trigger t).isSome)
    (hdrop : l.dropWhile (staysInFront trigger tr.pPriority) = b :: m) :
    enqueue trigger k q a = .ok (q.enqueueBefore k a b) := by
  have hwalk := walkTasks_enqueue tr.pPriority h hl
  rw [hdrop, List.head?_cons] at hwalk
  have hsplit := takeWhile_append_of_dropWhile hdrop
  have hab : a ≠ b := fun e => ha (by rw [hsplit, e]; simp)
  obtain ⟨xs, hxs⟩ : ∃ xs, l = xs ++ b :: m := ⟨_, hsplit⟩
  have hprev : k.pPrevious b = xs.getLast? := Queue.Rep.prev_eq (hxs ▸ h)
  have hhead : q.pHead = (xs ++ b :: m).head? := hxs ▸ h.head
  rw [enqueue, derefTrigger_eq_ok.mpr htr, Exec.ok_bind]
  cases xs with
  | nil =>
    simp only [hhead, List.nil_append, List.head?_cons] at hwalk ⊢
    simp [hwalk, Queue.enqueueBefore, hprev, QueueElements.setNext, QueueElements.setPrevious,
      setAt, Function.update_comm hab]
  | cons c xs =>
    have hbc : b ≠ c := fun e => by
      rw [hxs, e] at h
      exact (List.nodup_cons.mp h.nodup).1 (by simp)
    obtain ⟨z, hz⟩ : ∃ z, (c :: xs).getLast? = some z := ⟨_, List.getLast?_cons⟩
    have haz : a ≠ z := fun e => ha (by
      rw [hxs, e]
      exact List.mem_append_left _ (List.mem_of_mem_getLast? hz))
    simp only [hhead, List.cons_append, List.head?_cons] at hwalk ⊢
    simp [hwalk, hbc, Queue.enqueueBefore, hprev, hz, hhead, QueueElements.setNext,
      QueueElements.setPrevious, setAt, Function.update_comm haz]

theorem enqueue_spec [Fintype T] (h : q.Rep k l) (ha : a ∉ l) (htr : trigger a = some tr)
    (hl : ∀ t ∈ l, (trigger t).isSome) : ∃ k' q', enqueue trigger k q a = .ok (k', q') ∧
      q'.Rep k' (l.takeWhile (staysInFront trigger tr.pPriority) ++
        a :: l.dropWhile (staysInFront trigger tr.pPriority)) ∧
      AgreeOff (a :: l) k k' := by
  cases hdrop : l.dropWhile (staysInFront trigger tr.pPriority) with
  | nil =>
    have hsplit := takeWhile_append_of_dropWhile hdrop
    rw [List.append_nil] at hsplit
    rw [enqueue_eq_enqueueFast h htr hl hdrop, ← hsplit]
    exact h.enqueueFast ha
  | cons b m =>
    have hsplit := takeWhile_append_of_dropWhile hdrop
    rw [hsplit] at h ha
    obtain ⟨k', q', hok, hrep, hagree⟩ := h.enqueueBefore ha
    rw [← hsplit] at h ha hagree
    exact ⟨k', q', by rw [enqueue_eq_enqueueBefore h ha htr hl hdrop, hok], hrep, hagree⟩

/-- The tasks that the scan skips after a lock was refused at priority `curPriority`. -/
def hasPriority (trigger : T → Option (Trigger O)) (curPriority : Nat) (t : T) : Bool :=
  !(trigger t).any fun tr => tr.pPriority != curPriority

omit [DecidableEq T] in
/-- The scan of the rest `l` of a list. `J` holds as long as no lock was granted, `G t` after the
one for `t`. -/
theorem lockFirst_sat [Fintype T] {tryTaskLock : σ → T → Exec (Bool × σ)} {hangs : Prop}
    {J : σ → Prop} {G : T → σ → Prop} {p : Option T} {fuel : Nat} {s : σ}
    (h : Seg k.pNext k.pPrevious p l none) (hnodup : l.Nodup) (hfuel : l.length ≤ fuel)
    (hl : ∀ t ∈ l, (trigger t).isSome) (hs : J s)
    (htry : ∀ t ∈ l, ∀ s, J s → (tryTaskLock s t).Sat hangs fun (locked, s) =>
      if locked then G t s else J s) :
    (lockFirst trigger tryTaskLock k fuel l.head? s).Sat hangs fun (retEl, s) =>
      retEl = none ∧ J s ∨ ∃ t ∈ l, retEl = some t ∧ G t s := by
  induction fuel generalizing l p s with
  | zero =>
    cases List.length_eq_zero_iff.mp (Nat.le_zero.mp hfuel)
    exact .inl ⟨rfl, hs⟩
  | succ fuel ih =>
    cases l with
    | nil => exact .inl ⟨rfl, hs⟩
    | cons a l =>
      refine (htry a (by simp) s hs).bind fun ⟨locked, s'⟩ hs' => ?_
      cases locked with
      | true => exact .inr ⟨a, by simp, rfl, hs'⟩
      | false =>
        obtain ⟨tr, htr⟩ := Option.isSome_iff_exists.mp (hl a (by simp))
        have hwalk : walkTasks trigger k (fun other => other.pPriority != tr.pPriority)
            (Fintype.card T) (some a) =
              .ok ((a :: l).dropWhile (hasPriority trigger tr.pPriority)).head? :=
          walkTasks_eq _ h hnodup.length_le_card hl
        rw [List.dropWhile_cons_of_pos (by simp [hasPriority, htr])] at hwalk
        simp only [derefTrigger_eq_ok.mpr htr, Exec.ok_bind, hwalk, Bool.false_eq_true, if_false]
        -- the scan goes on with a proper suffix of the list
        have hsplit : l.takeWhile (hasPriority trigger tr.pPriority) ++
            l.dropWhile (hasPriority trigger tr.pPriority) = l := List.takeWhile_append_dropWhile
        have hseg := (seg_cons.mp h).2.2
        rw [← hsplit, seg_append] at hseg
        have hsub := List.dropWhile_sublist (l := l) (hasPriority trigger tr.pPriority)
        have hmem : ∀ t ∈ l.dropWhile (hasPriority trigger tr.pPriority), t ∈ a :: l :=
          fun t ht => .tail a (hsub.subset ht)
        refine (ih hseg.2 (hsub.nodup (List.nodup_cons.mp hnodup).2)
          (Nat.le_trans hsub.length_le (Nat.le_of_succ_le_succ hfuel))
          (fun t ht => hl t (hmem t ht)) hs' fun t ht => htry t (hmem t ht)).mono ?_
        intro ⟨retEl, s⟩ hres
        refine hres.imp_right fun ⟨t, ht, hG⟩ => ⟨t, hmem t ht, hG⟩

theorem dequeueHighestPriority_sat [Fintype T] {tryTaskLock : σ → T → Exec (Bool × σ)}
    {hangs : Prop} {J : σ → Prop} {G : T → σ → Prop} {s : σ} (h : q.Rep k l)
    (hl : ∀ t ∈ l, (trigger t).isSome) (hs : J s)
    (htry : ∀ t ∈ l, ∀ s, J s → (tryTaskLock s t).Sat hangs fun (locked, s) =>
      if locked then G t s else J s) :
    (dequeueHighestPriority trigger tryTaskLock k q s).Sat hangs fun (retEl, k', q', s') =>
      retEl = none ∧ k' = k ∧ q' = q ∧ J s' ∨
        ∃ t xs ys, retEl = some t ∧ l = xs ++ t :: ys ∧ q'.Rep k' (xs ++ ys) ∧
          AgreeOff l k k' ∧ G t s' := by
  rw [dequeueHighestPriority, h.head]
  refine (lockFirst_sat h.seg h.nodup h.nodup.length_le_card hl hs htry).bind ?_
  intro ⟨retEl, s'⟩ hres
  rcases hres with ⟨rfl, hJ⟩ | ⟨t, ht, rfl, hG⟩
  · exact .inl ⟨rfl, rfl, rfl, hJ⟩
  · obtain ⟨xs, ys, rfl⟩ := List.append_of_mem ht
    obtain ⟨k', q', hremove, hrep, hagree, -⟩ := h.removeElementFromList
    simp only [hremove, Exec.pure_eq, Exec.sat_ok]
    exact .inr ⟨t, xs, ys, rfl, rfl, hrep, hagree, hG⟩

end

end EventPriorityQueue

end CyPhOS
