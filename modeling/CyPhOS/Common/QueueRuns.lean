import CyPhOS.Common.Queue

/-! # Sequences of calls on a queue

`QueueOp` are the public operations of a queue. `QueueOp.onList` says what each of them returns and
leaves on a mathematical list, and `QueueOp.Proper` what its callers promise: `enqueueFast` and
`enqueueBefore` do not look for the object they are given, `removeElementFromList` does not look for
the element. `QueueOp.call_refines` is one call, `Queue.queue_refines_list` every sequence of them.
-/

namespace CyPhOS

variable {α : Type} [DecidableEq α]

namespace Queue

/-- Beyond the last position there is nothing to dequeue. -/
def dequeue (k : QueueElements α) (q : Queue α) (pos : Nat) :
    Option α × QueueElements α × Queue α :=
  if pos ≥ q.pSize then (none, k, q)
  else
    match advance k pos q.pHead with
    | none => (none, k, q)
    | some curElement =>
      let (k, q) := q.removeElementFromList k curElement
      (some curElement, k, q)

/-- Removing the element at a position. -/
theorem Rep.dequeue {k : QueueElements α} {q : Queue α} {l : List α} (h : q.Rep k l) (pos : Nat) :
    ∃ k' q', q.dequeue k pos = (l[pos]?, k', q') ∧ q'.Rep k' (l.eraseIdx pos) ∧ AgreeOff l k k' ∧
      ∀ a, l[pos]? = some a → k'.pNext a = none ∧ k'.pPrevious a = none := by
  have hget := h.get pos
  rw [Queue.get] at hget
  rcases Nat.lt_or_ge pos l.length with hlt | hge
  · obtain ⟨xs, a, ys, rfl, rfl⟩ : ∃ xs a ys, l = xs ++ a :: ys ∧ xs.length = pos :=
      ⟨l.take pos, l[pos], l.drop (pos + 1), by simp, by simpa using hlt.le⟩
    have hpos : ¬ xs.length ≥ q.pSize := by rw [h.size]; omega
    have hat : (xs ++ a :: ys)[xs.length]? = some a := by simp
    rw [if_neg hpos, hat] at hget
    obtain ⟨k', q', hok, hrep, hagree, hclear⟩ := h.removeElementFromList
    refine ⟨k', q', ?_, ?_, hagree, ?_⟩
    · rw [Queue.dequeue, if_neg hpos, hget, hat]
      simp only [hok]
    · rwa [List.eraseIdx_append_of_length_le le_rfl, Nat.sub_self, List.eraseIdx_cons_zero]
    · rintro b hb
      obtain rfl := Option.some.inj (hat.symm.trans hb)
      exact hclear
  · have hnone : l[pos]? = none := List.getElem?_eq_none hge
    refine ⟨k, q, ?_, ?_, AgreeOff.refl _ k, ?_⟩
    · rw [Queue.dequeue, if_pos (by rw [h.size]; exact hge), hnone]
    · rwa [List.eraseIdx_of_length_le hge]
    · intro a ha
      rw [hnone] at ha
      cases ha

end Queue

/-- A call on a queue. -/
inductive QueueOp (α : Type)
  | enqueueBefore (object before : α)
  | enqueue (object : α)
  | enqueueFast (object : α)
  | dequeueFirst
  | dequeue (pos : Nat)
  | remove (element : α)
  | get (pos : Nat)
  | removeElementFromList (element : α)
  | clearList

namespace QueueOp

/-- The call in the code. Operations without a result return nothing. -/
def call [Fintype α] (k : QueueElements α) (q : Queue α) :
    QueueOp α → Exec (Option α × QueueElements α × Queue α)
  | enqueueBefore object before => pure (none, q.enqueueBefore k object before)
  | enqueue object => do pure (none, ← q.enqueue k object)
  | enqueueFast object => do pure (none, ← q.enqueueFast k object)
  | dequeueFirst => q.dequeueFirst k
  | dequeue pos => pure (q.dequeue k pos)
  | remove element => do pure (none, ← q.remove k element)
  | get pos => pure (q.get k pos, k, q)
  | removeElementFromList element => pure (none, q.removeElementFromList k element)
  | clearList => do pure (none, ← q.clearList k)

/-- The corresponding operation on a list. -/
def onList (l : List α) : QueueOp α → Option α × List α
  | enqueueBefore object before => (none, l.insertIdx (l.idxOf before) object)
  | enqueue object => (none, if object ∈ l then l else l ++ [object])
  | enqueueFast object => (none, l ++ [object])
  | dequeueFirst => (l.head?, l.tail)
  | dequeue pos => (l[pos]?, l.eraseIdx pos)
  | remove element => (none, l.erase element)
  | get pos => (l[pos]?, l)
  | removeElementFromList element => (none, l.erase element)
  | clearList => (none, [])

/-- What the operations that do not check their arguments are promised. -/
def Proper (l : List α) : QueueOp α → Prop
  | enqueueBefore object before => object ∉ l ∧ before ∈ l
  | enqueueFast object => object ∉ l
  | removeElementFromList element => element ∈ l
  | _ => True

omit [DecidableEq α] in
/-- The element that the call may put into the queue. -/
def inserted : QueueOp α → List α
  | enqueueBefore object _ | enqueue object | enqueueFast object => [object]
  | _ => []

variable {k : QueueElements α} {q : Queue α} {l : List α}

omit [DecidableEq α] in
theorem insertIdx_length_append (xs ys : List α) (a : α) :
    (xs ++ ys).insertIdx xs.length a = xs ++ a :: ys := by
  induction xs with
  | nil => rfl
  | cons x xs ih => simp [ih]

/-- A call does to the queue what the operation does to the list. It writes no links but those of
members and of the element it is given, and leaves the links of elements that it takes out null. -/
theorem call_refines [Fintype α] (h : q.Rep k l) (op : QueueOp α) (hproper : op.Proper l) :
    ∃ k' q', op.call k q = .ok ((op.onList l).1, k', q') ∧ q'.Rep k' (op.onList l).2 ∧
      AgreeOff (op.inserted ++ l) k k' ∧
      ∀ a ∈ l, a ∉ (op.onList l).2 → k'.pNext a = none ∧ k'.pPrevious a = none := by
  cases op with
  | enqueueBefore object before =>
    obtain ⟨hnew, hmem⟩ := hproper
    obtain ⟨xs, ys, rfl⟩ := List.append_of_mem hmem
    have hxs : before ∉ xs := fun hin => (List.nodup_append.mp h.nodup).2.2 _ hin _ (by simp) rfl
    have hinsert : (xs ++ before :: ys).insertIdx ((xs ++ before :: ys).idxOf before) object =
        xs ++ object :: before :: ys := by
      rw [List.idxOf_append, if_neg hxs, List.idxOf_cons_self, Nat.zero_add]
      exact insertIdx_length_append xs _ object
    obtain ⟨k', q', hok, hrep, hagree⟩ := h.enqueueBefore hnew
    refine ⟨k', q', ?_, ?_, hagree, ?_⟩
    · rw [call, hok]
      rfl
    · rwa [onList, hinsert]
    · rw [onList, hinsert]
      intro a ha hnot
      exact (hnot (by simp at ha ⊢; tauto)).elim
  | enqueue object =>
    by_cases hmem : object ∈ l
    · refine ⟨k, q, ?_, ?_, AgreeOff.refl _ k, ?_⟩
      · simp [call, onList, h.enqueue_mem hmem]
      · rwa [onList, if_pos hmem]
      · rw [onList, if_pos hmem]
        exact fun a ha hnot => (hnot ha).elim
    · obtain ⟨k', q', hok, hrep, hagree⟩ := h.enqueue hmem
      refine ⟨k', q', ?_, ?_, hagree, ?_⟩
      · simp [call, onList, hok]
      · rwa [onList, if_neg hmem]
      · rw [onList, if_neg hmem]
        exact fun a ha hnot => (hnot (List.mem_append_left _ ha)).elim
  | enqueueFast object =>
    obtain ⟨k', q', hok, hrep, hagree⟩ := h.enqueueFast hproper
    exact ⟨k', q', by simp [call, onList, hok], hrep, hagree,
      fun a ha hnot => (hnot (List.mem_append_left _ ha)).elim⟩
  | dequeueFirst =>
    cases l with
    | nil => exact ⟨k, q, h.dequeueFirst_nil, h, AgreeOff.refl _ k, by simp⟩
    | cons b l =>
      obtain ⟨k', q', hok, hrep, hagree, hclear⟩ := h.dequeueFirst_cons
      refine ⟨k', q', hok, hrep, hagree, fun a ha hnot => ?_⟩
      rcases List.mem_cons.mp ha with rfl | ha
      · exact hclear
      · exact (hnot ha).elim
  | dequeue pos =>
    obtain ⟨k', q', hok, hrep, hagree, hclear⟩ := h.dequeue pos
    refine ⟨k', q', by rw [call, hok]; rfl, hrep, hagree, fun a ha hnot => hclear a ?_⟩
    obtain ⟨i, hi⟩ := List.mem_iff_getElem?.mp ha
    rcases eq_or_ne i pos with rfl | hne
    · exact hi
    · exact (hnot (List.mem_eraseIdx_iff_getElem?.mpr ⟨i, hne, hi⟩)).elim
  | remove element =>
    obtain ⟨k', q', hok, hrep, hagree, hclear⟩ := h.remove (a := element)
    refine ⟨k', q', by simp [call, onList, hok], hrep, hagree, fun a ha hnot => ?_⟩
    obtain rfl : a = element := by
      by_contra hne
      exact hnot ((List.mem_erase_of_ne hne).mpr ha)
    exact hclear ha
  | get pos =>
    exact ⟨k, q, by rw [call, h.get]; rfl, h, AgreeOff.refl _ k, fun a ha hnot => (hnot ha).elim⟩
  | removeElementFromList element =>
    obtain ⟨xs, ys, rfl⟩ := List.append_of_mem hproper
    have hxs : element ∉ xs := fun hin => (List.nodup_append.mp h.nodup).2.2 _ hin _ (by simp) rfl
    obtain ⟨k', q', hok, hrep, hagree, hclear⟩ := h.removeElementFromList
    refine ⟨k', q', by rw [call, hok]; rfl, ?_, hagree, ?_⟩
    · rwa [onList, List.erase_append_right _ hxs, List.erase_cons_head]
    · rw [onList, List.erase_append_right _ hxs, List.erase_cons_head]
      intro a ha hnot
      obtain rfl : a = element := by simp at ha hnot; tauto
      exact hclear
  | clearList =>
    obtain ⟨k', q', hok, hrep, hagree, hclear⟩ := h.clearList
    exact ⟨k', q', by simp [call, onList, hok], hrep, hagree, fun a ha _ => hclear a ha⟩

theorem mem_onList_of_inserted {a : α} (op : QueueOp α) (ha : a ∈ op.inserted)
    (hproper : op.Proper l) : a ∈ (op.onList l).2 := by
  cases op with
  | enqueueBefore object before =>
    obtain rfl := List.mem_singleton.mp ha
    exact (List.mem_insertIdx (List.idxOf_lt_length_of_mem hproper.2).le).mpr (.inl rfl)
  | enqueue object =>
    obtain rfl := List.mem_singleton.mp ha
    by_cases hmem : a ∈ l <;> simp [onList, hmem]
  | enqueueFast object =>
    obtain rfl := List.mem_singleton.mp ha
    simp [onList]
  | _ => cases ha

theorem onList_subset (op : QueueOp α) : (op.onList l).2 ⊆ op.inserted ++ l := by
  intro a ha
  cases op with
  | enqueueBefore object before =>
    have hle := List.idxOf_le_length (a := before) (l := l)
    simpa [inserted] using (List.mem_insertIdx hle).mp ha
  | enqueue object =>
    by_cases hmem : object ∈ l
    · rw [onList, if_pos hmem] at ha
      exact List.mem_append_right _ ha
    · rw [onList, if_neg hmem, List.mem_append] at ha
      exact List.mem_append.mpr ha.symm
  | enqueueFast object => exact List.mem_append.mpr (List.mem_append.mp ha).symm
  | dequeueFirst => exact List.mem_of_mem_tail ha
  | dequeue pos => exact List.mem_of_mem_eraseIdx ha
  | remove element => exact List.mem_of_mem_erase ha
  | get pos => exact ha
  | removeElementFromList element => exact List.mem_of_mem_erase ha
  | clearList => cases ha

end QueueOp

/-! ## Sequences -/

/-- The calls in the code, and what they return. -/
def queueCalls [Fintype α] : List (QueueOp α) → QueueElements α → Queue α →
    Exec (List (Option α) × QueueElements α × Queue α)
  | [], k, q => pure ([], k, q)
  | op :: ops, k, q => do
    let (result, k, q) ← op.call k q
    let (results, k, q) ← queueCalls ops k q
    pure (result :: results, k, q)

/-- The operations on a list, and what they return. -/
def listCalls : List (QueueOp α) → List α → List (Option α) × List α
  | [], l => ([], l)
  | op :: ops, l =>
    let (result, l) := op.onList l
    let (results, l) := listCalls ops l
    (result :: results, l)

/-- Every operation finds what it is promised. -/
def ProperCalls : List (QueueOp α) → List α → Prop
  | [], _ => True
  | op :: ops, l => op.Proper l ∧ ProperCalls ops (op.onList l).2

namespace Queue

variable {k : QueueElements α} {q : Queue α} {l : List α} {ops : List (QueueOp α)}

theorem Rep.queueCalls [Fintype α] (h : q.Rep k l) (hops : ProperCalls ops l) :
    ∃ k' q', CyPhOS.queueCalls ops k q = .ok ((listCalls ops l).1, k', q') ∧
      q'.Rep k' (listCalls ops l).2 ∧ AgreeOff (ops.flatMap QueueOp.inserted ++ l) k k' ∧
      ∀ a ∈ ops.flatMap QueueOp.inserted ++ l, a ∉ (listCalls ops l).2 →
        k'.pNext a = none ∧ k'.pPrevious a = none := by
  induction ops generalizing k q l with
  | nil => exact ⟨k, q, rfl, h, AgreeOff.refl _ k, fun a ha hnot => (hnot ha).elim⟩
  | cons op ops ih =>
    obtain ⟨k₁, q₁, hok₁, hrep₁, hagree₁, hclear₁⟩ := op.call_refines h hops.1
    obtain ⟨k', q', hok, hrep, hagree, hclear⟩ := ih hrep₁ hops.2
    refine ⟨k', q', ?_, hrep, ?_, ?_⟩
    · simp [CyPhOS.queueCalls, listCalls, hok₁, hok]
    · apply (hagree₁.mono ?_).trans (hagree.mono ?_)
      · intro a ha
        simp only [List.flatMap_cons, List.mem_append] at ha ⊢
        tauto
      · intro a ha
        have hsub := op.onList_subset (l := l) (a := a)
        simp only [List.flatMap_cons, List.mem_append] at ha hsub ⊢
        tauto
    · intro a ha hnot
      by_cases hlater : a ∈ ops.flatMap QueueOp.inserted ++ (op.onList l).2
      · exact hclear a hlater hnot
      -- the call took the element out, and no later one writes its links
      · have hl : a ∈ l := by
          have hop := fun hin => hlater (List.mem_append_right _ (op.mem_onList_of_inserted hin hops.1))
          simp only [List.flatMap_cons, List.mem_append] at ha hlater
          tauto
        obtain ⟨hn, hp⟩ := hclear₁ a hl fun hin => hlater (List.mem_append_right _ hin)
        exact ⟨(hagree a hlater).1.trans hn, (hagree a hlater).2.trans hp⟩

/-- From an empty queue on, every sequence of calls returns and leaves what it does on a list. The
links are those of the list; elements that were in the queue and are no longer have null links, and
no others are written. -/
theorem queue_refines_list [Fintype α] (hops : ProperCalls ops []) :
    ∃ k' q', queueCalls ops k Queue.new = .ok ((listCalls ops []).1, k', q') ∧
      q'.Rep k' (listCalls ops []).2 ∧
      (∀ a ∈ ops.flatMap QueueOp.inserted, a ∉ (listCalls ops []).2 →
        k'.pNext a = none ∧ k'.pPrevious a = none) ∧
      AgreeOff (ops.flatMap QueueOp.inserted) k k' := by
  obtain ⟨k', q', hok, hrep, hagree, hclear⟩ := (Rep.new k).queueCalls hops
  rw [List.append_nil] at hagree hclear
  exact ⟨k', q', hok, hrep, hclear, hagree⟩

theorem queue_refines_list_swap :
    ∃ k' q', queueCalls (α := Fin 3) [.enqueue 0, .enqueueFast 1, .enqueueBefore 2 1, .dequeue 0,
        .enqueue 1, .removeElementFromList 1, .get 0] QueueElements.zeroed Queue.new =
          .ok ([none, none, none, some 0, none, none, some 2], k', q') ∧
      q'.Rep k' [2] ∧ k'.pNext 0 = none ∧ k'.pPrevious 1 = none := by
  have hops : ProperCalls (α := Fin 3) [.enqueue 0, .enqueueFast 1, .enqueueBefore 2 1, .dequeue 0,
      .enqueue 1, .removeElementFromList 1, .get 0] [] := by
    simp [ProperCalls, QueueOp.Proper, QueueOp.onList, List.idxOf, List.findIdx_cons]
  obtain ⟨k', q', hok, hrep, hclear, -⟩ := queue_refines_list (k := QueueElements.zeroed) hops
  exact ⟨k', q', hok, hrep, (hclear 0 (by decide) (by decide)).1, (hclear 1 (by decide) (by decide)).2⟩

end Queue

end CyPhOS
