import Mathlib.Algebra.Group.Nat.Defs
import CyPhOS.Common.Exec
import CyPhOS.Lib.LinkedList

/-! # The intrusive queue of `common/Queue.cc`

An element of a queue derives from `QueueElement` and so carries its own links; `QueueElements`
holds the links of all elements of one type, and every queue of that type threads the same links.
A `Queue` is the head, the tail and the size. The operations are translated statement by
statement.

`Queue.Rep k q l` is the representation invariant: in the links `k` the queue `q` is the list `l`.
Each operation has one lemma that says which list it leaves, and that no link outside the list
and the element at hand is written (`AgreeOff`). `Queue.Family` is the representation of several
queues with disjoint lists in the same links; by `Family.relink` an operation on one of them leaves
the others as they are.
-/

namespace CyPhOS

open LinkedList

/-- The links of all elements of one type. -/
structure QueueElements (α : Type) where
  pNext : α → Option α
  pPrevious : α → Option α

/-- The head, the tail and the size of a queue. -/
structure Queue (α : Type) where
  pHead : Option α
  pTail : Option α
  pSize : Nat
  deriving DecidableEq, Repr

variable {α : Type}

def Queue.new : Queue α := { pHead := none, pTail := none, pSize := 0 }

/-- `pSize--` on a `uint32_t`. -/
def decrementSize (pSize : Nat) : Nat := if pSize = 0 then 2 ^ 32 - 1 else pSize - 1

@[simp] theorem decrementSize_succ (n : Nat) : decrementSize (n + 1) = n := by
  simp [decrementSize]

section
variable [DecidableEq α]

namespace QueueElements

/-- The links of elements in zeroed storage. -/
def zeroed : QueueElements α := { pNext := fun _ => none, pPrevious := fun _ => none }

/-- `element->pNext = value`, skipped if `element` is a null pointer. -/
def setNext (k : QueueElements α) (element value : Option α) : QueueElements α :=
  { k with pNext := setAt k.pNext element value }

/-- `element->pPrevious = value`, skipped if `element` is a null pointer. -/
def setPrevious (k : QueueElements α) (element value : Option α) : QueueElements α :=
  { k with pPrevious := setAt k.pPrevious element value }

/-- Both links of an element set to null. -/
def clear (k : QueueElements α) (element : α) : QueueElements α :=
  (k.setNext (some element) none).setPrevious (some element) none

variable {k : QueueElements α} {o v : Option α} {a b : α}

@[simp] theorem setNext_pPrevious : (k.setNext o v).pPrevious = k.pPrevious := rfl

@[simp] theorem setPrevious_pNext : (k.setPrevious o v).pNext = k.pNext := rfl

theorem setNext_of_ne (h : o ≠ some b) : (k.setNext o v).pNext b = k.pNext b := setAt_of_ne h

theorem setPrevious_of_ne (h : o ≠ some b) : (k.setPrevious o v).pPrevious b = k.pPrevious b :=
  setAt_of_ne h

@[simp] theorem clear_pNext : (k.clear a).pNext a = none := by simp [clear, setNext]

@[simp] theorem clear_pPrevious : (k.clear a).pPrevious a = none := by simp [clear, setPrevious]

theorem clear_pNext_of_ne (h : b ≠ a) : (k.clear a).pNext b = k.pNext b :=
  show (k.setNext (some a) none).pNext b = _ from
    setNext_of_ne fun e => h (Option.some.inj e).symm

theorem clear_pPrevious_of_ne (h : b ≠ a) : (k.clear a).pPrevious b = k.pPrevious b :=
  show ((k.setNext (some a) none).setPrevious (some a) none).pPrevious b = _ from
    setPrevious_of_ne fun e => h (Option.some.inj e).symm

end QueueElements

namespace Queue

def enqueueBefore (k : QueueElements α) (q : Queue α) (object before : α) :
    QueueElements α × Queue α :=
  let q := if k.pPrevious before = none then { q with pHead := some object } else q
  let k := k.setNext (k.pPrevious before) (some object)
  let k := k.setNext (some object) (some before)
  let k := k.setPrevious (some object) (k.pPrevious before)
  let k := k.setPrevious (some before) (some object)
  (k, { q with pSize := q.pSize + 1 })

def enqueueFast (k : QueueElements α) (q : Queue α) (object : α) :
    Exec (QueueElements α × Queue α) :=
  if q.pHead = none ∧ q.pTail = none then
    .ok (k.clear object,
      { pHead := some object, pTail := some object, pSize := q.pSize + 1 })
  else
    match q.pTail with
    | none => .error .nullDereference
    | some tail =>
      let k := k.setNext (some object) none
      let k := k.setPrevious (some object) (some tail)
      let k := k.setNext (some tail) (some object)
      .ok (k, { q with pTail := some object, pSize := q.pSize + 1 })

/-- The loops that follow `pNext` from the head to the first element with a property, or to
the end. On links that run in a circle they do not end. -/
def find [Fintype α] (k : QueueElements α) (q : Queue α) (stop : α → Bool) : Exec (Option α) :=
  match walk k.pNext stop (Fintype.card α) q.pHead with
  | some curElement => .ok curElement
  | none => .error .hang

/-- `enqueueFast`, unless the object is already in the list. -/
def enqueue [Fintype α] (k : QueueElements α) (q : Queue α) (object : α) :
    Exec (QueueElements α × Queue α) := do
  match ← q.find k (· == object) with
  | some _ => pure (k, q)
  | none => q.enqueueFast k object

def dequeueFirst (k : QueueElements α) (q : Queue α) :
    Exec (Option α × QueueElements α × Queue α) :=
  match q.pHead with
  | none => .ok (none, k, q)
  | some retVal =>
    if q.pHead = q.pTail then
      .ok (some retVal, k.clear retVal,
        { pHead := none, pTail := none, pSize := decrementSize q.pSize })
    else
      match k.pNext retVal with
      | none => .error .nullDereference
      | some head =>
        .ok (some retVal, (k.setPrevious (some head) none).clear retVal,
          { q with pHead := some head, pSize := decrementSize q.pSize })

def removeElementFromList (k : QueueElements α) (q : Queue α) (element : α) :
    QueueElements α × Queue α :=
  let pHead := if q.pHead = some element then k.pNext element else q.pHead
  let pTail := if q.pTail = some element then k.pPrevious element else q.pTail
  let k := k.setNext (k.pPrevious element) (k.pNext element)
  let k := k.setPrevious (k.pNext element) (k.pPrevious element)
  (k.clear element, { pHead, pTail, pSize := decrementSize q.pSize })

def remove [Fintype α] (k : QueueElements α) (q : Queue α) (element : α) :
    Exec (QueueElements α × Queue α) := do
  match ← q.find k (· == element) with
  | some curElement => pure (q.removeElementFromList k curElement)
  | none => pure (k, q)

/-- `pos` steps along `pNext`, or to the end of the list. -/
def advance (k : QueueElements α) : Nat → Option α → Option α
  | 0, curElement => curElement
  | _ + 1, none => none
  | pos + 1, some curElement => advance k pos (k.pNext curElement)

def get (k : QueueElements α) (q : Queue α) (pos : Nat) : Option α :=
  if pos ≥ q.pSize then none else advance k pos q.pHead

/-- `while (dequeueFirst() != nullptr)`. Each round clears the links of an element, so that
`fuel` rounds, one more than there are elements, are enough on any links. -/
def clearLoop : Nat → QueueElements α → Queue α → Exec (QueueElements α × Queue α)
  | 0, _, _ => .error .hang
  | fuel + 1, k, q => do
    match ← q.dequeueFirst k with
    | (none, k, q) => pure (k, q)
    | (some _, k, q) => clearLoop fuel k q

def clearList [Fintype α] (k : QueueElements α) (q : Queue α) :
    Exec (QueueElements α × Queue α) :=
  clearLoop (Fintype.card α + 1) k q

/-- The loop that enqueues the objects of a static array one after the other. -/
def enqueueAll [Fintype α] (k : QueueElements α) (q : Queue α) (objects : List α) :
    Exec (QueueElements α × Queue α) :=
  objects.foldlM (fun (k, q) object => q.enqueue k object) (k, q)

end Queue

end

/-! ## The representation invariant -/

/-- The links `k` and `k'` agree on every element that is not in `l`. -/
def AgreeOff (l : List α) (k k' : QueueElements α) : Prop :=
  ∀ b ∉ l, k'.pNext b = k.pNext b ∧ k'.pPrevious b = k.pPrevious b

theorem AgreeOff.mono {l m : List α} {k k' : QueueElements α} (h : AgreeOff l k k')
    (hlm : l ⊆ m) : AgreeOff m k k' :=
  fun b hb => h b fun hl => hb (hlm hl)

theorem AgreeOff.trans {l : List α} {k k' k'' : QueueElements α} (h : AgreeOff l k k')
    (h' : AgreeOff l k' k'') : AgreeOff l k k'' :=
  fun b hb => ⟨(h' b hb).1.trans (h b hb).1, (h' b hb).2.trans (h b hb).2⟩

theorem AgreeOff.refl (l : List α) (k : QueueElements α) : AgreeOff l k k :=
  fun _ _ => ⟨rfl, rfl⟩

namespace Queue

/-- In the links `k` the queue `q` is the list `l`. -/
structure Rep (k : QueueElements α) (q : Queue α) (l : List α) : Prop where
  nodup : l.Nodup
  head : q.pHead = l.head?
  tail : q.pTail = l.getLast?
  size : q.pSize = l.length
  seg : Seg k.pNext k.pPrevious none l none

theorem Rep.new (k : QueueElements α) : Rep k Queue.new [] :=
  ⟨List.nodup_nil, rfl, rfl, rfl, trivial⟩

theorem Rep.eq_new_iff {k : QueueElements α} {q : Queue α} {l : List α} (h : Rep k q l) :
    q = Queue.new ↔ l = [] := by
  constructor
  · rintro rfl
    exact List.length_eq_zero_iff.mp h.size.symm
  · rintro rfl
    obtain ⟨pHead, pTail, pSize⟩ := q
    obtain ⟨-, rfl, rfl, rfl, -⟩ := h
    rfl

/-- A queue is left alone by writes to links of other elements. -/
theorem Rep.frame {k k' : QueueElements α} {q : Queue α} {l m : List α} (h : Rep k q l)
    (hk : AgreeOff m k k') (hdisj : ∀ a ∈ l, a ∉ m) : Rep k' q l where
  __ := h
  seg := h.seg.congr (fun a ha => (hk a (hdisj a ha)).1) fun a ha => (hk a (hdisj a ha)).2

/-- The list of a queue is determined by the links. -/
theorem Rep.next_eq {k : QueueElements α} {q : Queue α} {l m : List α} {a : α}
    (h : Rep k q (l ++ a :: m)) : k.pNext a = m.head? := by
  rw [h.seg.next_eq, Option.or_none]

theorem Rep.prev_eq {k : QueueElements α} {q : Queue α} {l m : List α} {a : α}
    (h : Rep k q (l ++ a :: m)) : k.pPrevious a = l.getLast? := by
  rw [h.seg.prev_eq, Option.or_none]

/-- Two lists a queue is represented by are the same. -/
theorem Rep.unique {k : QueueElements α} {q : Queue α} {l m : List α} (h : Rep k q l)
    (h' : Rep k q m) : l = m :=
  h.seg.eq_of_head h'.seg (h.head.symm.trans h'.head)

section
variable [DecidableEq α]

/-- Writing the links of an element writes no others. -/
theorem agreeOff_clear (k : QueueElements α) (a : α) : AgreeOff [a] k (k.clear a) :=
  fun _ hb => ⟨QueueElements.clear_pNext_of_ne (by simpa using hb),
    QueueElements.clear_pPrevious_of_ne (by simpa using hb)⟩

/-- Clearing the links of an element that is not in the list. -/
theorem Seg.clear {k : QueueElements α} {p q : Option α} {l : List α} {a : α}
    (h : Seg k.pNext k.pPrevious p l q) (ha : a ∉ l) :
    Seg (k.clear a).pNext (k.clear a).pPrevious p l q :=
  h.congr (fun _ hb => QueueElements.clear_pNext_of_ne (ne_of_mem_of_not_mem hb ha))
    fun _ hb => QueueElements.clear_pPrevious_of_ne (ne_of_mem_of_not_mem hb ha)

omit [DecidableEq α] in
theorem Rep.find [Fintype α] {k : QueueElements α} {q : Queue α} {l : List α} (h : Rep k q l)
    (stop : α → Bool) : q.find k stop = .ok (l.find? stop) := by
  have hfuel := h.nodup.length_le_card
  simp [Queue.find, h.head, walk_eq_find h.seg hfuel]

theorem Rep.find_mem [Fintype α] {k : QueueElements α} {q : Queue α} {l : List α} {a : α}
    (h : Rep k q l) (ha : a ∈ l) : q.find k (· == a) = .ok (some a) := by
  rw [h.find]
  cases hfind : l.find? (· == a) with
  | none => exact absurd (beq_self_eq_true a) (List.find?_eq_none.mp hfind a ha)
  | some b =>
    obtain rfl : b = a := by simpa using List.find?_some hfind
    rfl

theorem Rep.enqueueFast {k : QueueElements α} {q : Queue α} {l : List α} {a : α} (h : Rep k q l)
    (ha : a ∉ l) : ∃ k' q', q.enqueueFast k a = .ok (k', q') ∧ Rep k' q' (l ++ [a]) ∧
      AgreeOff (a :: l) k k' := by
  have hnodup : (l ++ [a]).Nodup :=
    List.nodup_append.mpr ⟨h.nodup, by simp, by simpa using fun b hb => ne_of_mem_of_not_mem hb ha⟩
  have hseg : Seg k.pNext k.pPrevious none (l ++ []) none := by simpa using h.seg
  have hlink := hseg.link (a := a) hnodup
  rcases List.eq_nil_or_concat l with rfl | ⟨m, z, rfl⟩
  · refine ⟨k.clear a, ⟨some a, some a, q.pSize + 1⟩, ?_, ⟨by simp, rfl, rfl, ?_, ?_⟩, ?_⟩
    · simp [Queue.enqueueFast, h.head, h.tail]
    · simpa using h.size
    · exact hlink
    · exact agreeOff_clear k a
  · rw [List.concat_eq_append] at *
    have hz : z ≠ a := fun e => ha (by simp [e])
    -- the writes of the code come in another order than those of the link rule
    have hcomm : ((k.setNext (some a) none).setPrevious (some a) (some z)).setNext (some z)
        (some a) = ⟨Function.update (setAt k.pNext (m ++ [z]).getLast? (some a)) a none,
          Function.update k.pPrevious a (some z)⟩ := by
      simp [QueueElements.setNext, QueueElements.setPrevious, setAt,
        Function.update_comm hz.symm]
    refine ⟨⟨Function.update (setAt k.pNext (m ++ [z]).getLast? (some a)) a none,
        Function.update k.pPrevious a (some z)⟩, ⟨q.pHead, some a, q.pSize + 1⟩, ?_,
      ⟨hnodup, ?_, ?_, ?_, ?_⟩, ?_⟩
    · simp only [Queue.enqueueFast, h.tail, List.getLast?_append, List.getLast?_singleton,
        Option.some_or, reduceCtorEq, and_false, if_false]
      rw [hcomm, List.getLast?_append, List.getLast?_singleton, Option.some_or]
    · rw [h.head]
      simp [List.head?_append]
    · simp
    · simp [h.size]
    · simpa using hlink
    · intro b hb
      have hba : b ≠ a := fun e => hb (by simp [e])
      have hbz : some z ≠ some b := fun e => hb (by simp [Option.some.inj e])
      simp [Function.update_of_ne hba, setAt_of_ne hbz]

theorem Rep.enqueue [Fintype α] {k : QueueElements α} {q : Queue α} {l : List α} {a : α}
    (h : Rep k q l) (ha : a ∉ l) : ∃ k' q', q.enqueue k a = .ok (k', q') ∧
      Rep k' q' (l ++ [a]) ∧ AgreeOff (a :: l) k k' := by
  have hnone : l.find? (· == a) = none := List.find?_eq_none.mpr fun b hb => by
    simpa using ne_of_mem_of_not_mem hb ha
  obtain ⟨k', q', hok, hrep⟩ := h.enqueueFast ha
  exact ⟨k', q', by simp [Queue.enqueue, h.find, hnone, hok], hrep⟩

/-- An object that is already in the list is not enqueued again. -/
theorem Rep.enqueue_mem [Fintype α] {k : QueueElements α} {q : Queue α} {l : List α} {a : α}
    (h : Rep k q l) (ha : a ∈ l) : q.enqueue k a = .ok (k, q) := by
  simp [Queue.enqueue, h.find_mem ha]

theorem Rep.enqueueAll [Fintype α] {k : QueueElements α} {q : Queue α} {l m : List α}
    (h : Rep k q l) (hm : (l ++ m).Nodup) : ∃ k' q', q.enqueueAll k m = .ok (k', q') ∧
      Rep k' q' (l ++ m) ∧ AgreeOff (l ++ m) k k' := by
  induction m generalizing k q l with
  | nil => exact ⟨k, q, rfl, by simpa using h, AgreeOff.refl _ k⟩
  | cons a m ih =>
    have hla : a ∉ l := fun hal => (List.nodup_append.mp hm).2.2 a hal a (by simp) rfl
    obtain ⟨k₁, q₁, hok, hrep, hagree⟩ := h.enqueue hla
    obtain ⟨k₂, q₂, hok', hrep', hagree'⟩ := ih hrep (by simpa using hm)
    refine ⟨k₂, q₂, ?_, by simpa using hrep', ?_⟩
    · have hrest : m.foldlM (fun (k, q) object => Queue.enqueue k q object) (k₁, q₁) =
          .ok (k₂, q₂) := hok'
      simp [Queue.enqueueAll, hok, hrest]
    · exact (hagree.mono (by simp)).trans (by simpa using hagree')

theorem Rep.dequeueFirst_nil {k : QueueElements α} {q : Queue α} (h : Rep k q []) :
    q.dequeueFirst k = .ok (none, k, q) := by
  simp [Queue.dequeueFirst, h.head]

/-- Dequeuing the head unlinks it and leaves its own links null. -/
theorem Rep.dequeueFirst_cons {k : QueueElements α} {q : Queue α} {l : List α} {a : α}
    (h : Rep k q (a :: l)) : ∃ k' q', q.dequeueFirst k = .ok (some a, k', q') ∧ Rep k' q' l ∧
      AgreeOff (a :: l) k k' ∧ k'.pNext a = none ∧ k'.pPrevious a = none := by
  obtain ⟨hal, hl⟩ := List.nodup_cons.mp h.nodup
  have hsize : decrementSize q.pSize = l.length := by simp [h.size]
  have hnext : k.pNext a = l.head? := Rep.next_eq (l := []) h
  cases l with
  | nil =>
    refine ⟨k.clear a, ⟨none, none, decrementSize q.pSize⟩, ?_, ⟨hl, rfl, rfl, hsize, trivial⟩,
      agreeOff_clear k a, ?_⟩
    · simp [Queue.dequeueFirst, h.head, h.tail]
    · simp [QueueElements.clear, QueueElements.setNext, QueueElements.setPrevious]
  | cons b l =>
    have hlast : (a :: b :: l).getLast? = (b :: l).getLast? := List.getLast?_cons_cons
    have hne : (b :: l).getLast? ≠ some a := fun e => hal (List.mem_of_mem_getLast? e)
    have hseg : Seg k.pNext (setAt k.pPrevious (some b) none) none (b :: l) none :=
      (seg_cons.mp h.seg).2.2.set_first hl none
    refine ⟨(k.setPrevious (some b) none).clear a, ⟨some b, q.pTail, decrementSize q.pSize⟩,
      ?_, ⟨hl, rfl, h.tail.trans hlast, hsize, Seg.clear hseg hal⟩, ?_, by simp, by simp⟩
    · simp [Queue.dequeueFirst, h.head, h.tail, hlast, hne.symm, hnext]
    · intro c hc
      have hca : c ≠ a := fun e => hc (by simp [e])
      have hcb : some b ≠ some c := fun e => hc (by simp [Option.some.inj e])
      rw [QueueElements.clear_pNext_of_ne hca, QueueElements.clear_pPrevious_of_ne hca,
        QueueElements.setPrevious_of_ne hcb]
      exact ⟨rfl, rfl⟩

/-- Removing a member closes the gap and leaves the links of the member null. -/
theorem Rep.removeElementFromList {k : QueueElements α} {q : Queue α} {l m : List α} {a : α}
    (h : Rep k q (l ++ a :: m)) : ∃ k' q', q.removeElementFromList k a = (k', q') ∧
      Rep k' q' (l ++ m) ∧ AgreeOff (l ++ a :: m) k k' ∧ k'.pNext a = none ∧
      k'.pPrevious a = none := by
  obtain ⟨hlm, hal⟩ : (l ++ m).Nodup ∧ a ∉ l ++ m := by
    have hperm : (l ++ a :: m).Perm (a :: (l ++ m)) := List.perm_middle
    have hcons := List.nodup_cons.mp (hperm.nodup_iff.mp h.nodup)
    exact ⟨hcons.2, hcons.1⟩
  obtain ⟨hml, hmm⟩ : a ∉ l ∧ a ∉ m := by simpa using hal
  have hnl : l.getLast? ≠ some a := fun e => hml (List.mem_of_mem_getLast? e)
  have hhead : (if q.pHead = some a then k.pNext a else q.pHead) = (l ++ m).head? := by
    rw [h.head, h.next_eq]
    cases l with
    | nil => simp
    | cons b l =>
      have hba : b ≠ a := fun e => hml (by simp [e])
      simp [hba]
  have htail : (if q.pTail = some a then k.pPrevious a else q.pTail) = (l ++ m).getLast? := by
    rw [h.tail, h.prev_eq, List.getLast?_append, List.getLast?_append, List.getLast?_cons]
    cases hm : m.getLast? with
    | none => simp
    | some b =>
      have hba : b ≠ a := fun e => hmm (e ▸ List.mem_of_mem_getLast? hm)
      simp [hba]
  -- the links as the unlink rule writes them, before the element's own are cleared
  have hk : (k.setNext (k.pPrevious a) (k.pNext a)).setPrevious
      ((k.setNext (k.pPrevious a) (k.pNext a)).pNext a) (k.pPrevious a) =
      ⟨setAt k.pNext l.getLast? m.head?, setAt k.pPrevious m.head? l.getLast?⟩ := by
    simp only [QueueElements.setNext, QueueElements.setPrevious, h.next_eq, h.prev_eq,
      setAt_of_ne hnl]
  refine ⟨QueueElements.clear ⟨setAt k.pNext l.getLast? m.head?,
      setAt k.pPrevious m.head? l.getLast?⟩ a, ⟨(l ++ m).head?, (l ++ m).getLast?,
      decrementSize q.pSize⟩, ?_, ⟨hlm, rfl, rfl, by simp [h.size, ← Nat.add_assoc],
      Seg.clear (h.seg.unlink h.nodup) hal⟩, ?_, by simp, by simp⟩
  · rw [Queue.removeElementFromList, hhead, htail, QueueElements.setNext_pPrevious, hk]
  · intro b hb
    obtain ⟨hbl, hba, hbm⟩ : b ∉ l ∧ b ≠ a ∧ b ∉ m := by simpa using hb
    rw [QueueElements.clear_pNext_of_ne hba, QueueElements.clear_pPrevious_of_ne hba]
    exact ⟨setAt_of_notMem_getLast hbl, setAt_of_notMem_head hbm⟩

/-- `remove` takes a member out, which leaves its links null, and does nothing to a list without the
element. -/
theorem Rep.remove [Fintype α] {k : QueueElements α} {q : Queue α} {l : List α} {a : α}
    (h : Rep k q l) : ∃ k' q', q.remove k a = .ok (k', q') ∧ Rep k' q' (l.erase a) ∧
      AgreeOff l k k' ∧ (a ∈ l → k'.pNext a = none ∧ k'.pPrevious a = none) := by
  by_cases ha : a ∈ l
  · obtain ⟨xs, ys, rfl⟩ := List.append_of_mem ha
    have hxs : a ∉ xs := fun hin => (List.nodup_append.mp h.nodup).2.2 a hin a (by simp) rfl
    have hfind := h.find_mem ha
    obtain ⟨k', q', hok, hrep, hagree, hclear⟩ := h.removeElementFromList
    rw [List.erase_append_right _ hxs, List.erase_cons_head]
    exact ⟨k', q', by simp [Queue.remove, hfind, hok], hrep, hagree, fun _ => hclear⟩
  · have hfind : l.find? (· == a) = none := List.find?_eq_none.mpr fun b hb => by
      simpa using ne_of_mem_of_not_mem hb ha
    rw [List.erase_of_not_mem ha]
    exact ⟨k, q, by simp [Queue.remove, h.find, hfind], h, AgreeOff.refl _ k, fun hin => (ha hin).elim⟩

/-- Enqueuing before a member. -/
theorem Rep.enqueueBefore {k : QueueElements α} {q : Queue α} {l m : List α} {a b : α}
    (h : Rep k q (l ++ b :: m)) (ha : a ∉ l ++ b :: m) : ∃ k' q',
      q.enqueueBefore k a b = (k', q') ∧ Rep k' q' (l ++ a :: b :: m) ∧
      AgreeOff (a :: (l ++ b :: m)) k k' := by
  obtain ⟨hal, hab, ham⟩ : a ∉ l ∧ a ≠ b ∧ a ∉ m := by simpa using ha
  have hnodup : (l ++ a :: b :: m).Nodup :=
    List.perm_middle.nodup_iff.mpr (List.nodup_cons.mpr ⟨ha, h.nodup⟩)
  have hlink := h.seg.link hnodup
  rw [List.head?_cons] at hlink
  -- the code fixes the back link of `b` last, the link rule that of `a`
  have hcomm : Function.update (setAt k.pPrevious (some b) (some a)) a l.getLast? =
      setAt (setAt k.pPrevious (some a) l.getLast?) (some b) (some a) :=
    Function.update_comm hab.symm _ _ _
  rw [hcomm] at hlink
  refine ⟨_, _, rfl, ⟨hnodup, ?_, ?_, ?_, ?_⟩, ?_⟩
  · cases l with
    | nil => simp [h.prev_eq]
    | cons c l => simp [h.prev_eq, h.head]
  · rw [h.prev_eq]
    split <;> simp [h.tail]
  · rw [h.prev_eq]
    split <;> simp [h.size] <;> omega
  · simp only [QueueElements.setNext, QueueElements.setPrevious, h.prev_eq]
    exact hlink
  · intro c hc
    obtain ⟨hca, hcl, hcb, hcm⟩ : c ≠ a ∧ c ∉ l ∧ c ≠ b ∧ c ∉ m := by simpa using hc
    have hl : l.getLast? ≠ some c := fun e => hcl (List.mem_of_mem_getLast? e)
    simp [QueueElements.setNext, QueueElements.setPrevious, h.prev_eq, setAt_of_ne, hl,
      hca.symm, hcb.symm]

/-- The loop of `clearList`, with one more round than there are members. -/
theorem Rep.clearLoop {k : QueueElements α} {q : Queue α} {l : List α} {fuel : Nat}
    (h : Rep k q l) (hfuel : l.length < fuel) : ∃ k' q',
      Queue.clearLoop fuel k q = .ok (k', q') ∧ Rep k' q' [] ∧ AgreeOff l k k' ∧
        ∀ a ∈ l, k'.pNext a = none ∧ k'.pPrevious a = none := by
  induction l generalizing k q fuel with
  | nil =>
    obtain ⟨fuel, rfl⟩ := Nat.exists_eq_add_of_le' hfuel
    exact ⟨k, q, by simp [Queue.clearLoop, h.dequeueFirst_nil], h, AgreeOff.refl _ k, by simp⟩
  | cons a l ih =>
    obtain ⟨fuel, rfl⟩ := Nat.exists_eq_add_of_le' (Nat.lt_of_le_of_lt (Nat.zero_le _) hfuel)
    obtain ⟨k₁, q₁, hok, hrep, hagree, hclear⟩ := h.dequeueFirst_cons
    obtain ⟨k₂, q₂, hok', hrep', hagree', hclear'⟩ := ih hrep (Nat.lt_of_succ_lt_succ hfuel)
    refine ⟨k₂, q₂, by simp [Queue.clearLoop, hok, hok'], hrep',
      hagree.trans (hagree'.mono (by simp)), fun b hb => ?_⟩
    rcases List.mem_cons.mp hb with rfl | hb
    · have hsame := hagree' b (List.nodup_cons.mp h.nodup).1
      rw [hsame.1, hsame.2]
      exact hclear
    · exact hclear' b hb

/-- `clearList` leaves the links of the members null. -/
theorem Rep.clearList [Fintype α] {k : QueueElements α} {q : Queue α} {l : List α}
    (h : Rep k q l) : ∃ k' q', q.clearList k = .ok (k', q') ∧ Rep k' q' [] ∧ AgreeOff l k k' ∧
      ∀ a ∈ l, k'.pNext a = none ∧ k'.pPrevious a = none :=
  h.clearLoop (Nat.lt_succ_of_le h.nodup.length_le_card)

/-- The first `n` elements of the walk from `o` along `pNext`. -/
def walk (k : QueueElements α) : Nat → Option α → List α
  | 0, _ => []
  | _ + 1, none => []
  | n + 1, some a => a :: walk k n (k.pNext a)

omit [DecidableEq α] in
@[simp] theorem walk_none (k : QueueElements α) (n : Nat) : walk k n none = [] := by
  cases n <;> rfl

omit [DecidableEq α] in
/-- In a list the walk goes through the elements. -/
theorem walk_eq_take {k : QueueElements α} {l : List α} {p : Option α}
    (h : Seg k.pNext k.pPrevious p l none) (n : Nat) : walk k n l.head? = l.take n := by
  induction l generalizing p n with
  | nil => simp
  | cons a l ih =>
    cases n with
    | zero => rfl
    | succ n =>
      rw [seg_cons, Option.or_none] at h
      simp [walk, h.2.1, ih h.2.2 n]

omit [DecidableEq α] in
theorem Rep.get {k : QueueElements α} {q : Queue α} {l : List α} (h : Rep k q l) (pos : Nat) :
    q.get k pos = l[pos]? := by
  have hadvance : ∀ {l : List α} {p : Option α} (pos : Nat),
      Seg k.pNext k.pPrevious p l none → advance k pos l.head? = l[pos]? := by
    intro l
    induction l with
    | nil => intro p pos _; cases pos <;> rfl
    | cons a l ih =>
      intro p pos hseg
      cases pos with
      | zero => rfl
      | succ pos =>
        rw [seg_cons, Option.or_none] at hseg
        simp [advance, hseg.2.1, ih pos hseg.2.2]
  rw [Queue.get, h.size, h.head, hadvance pos h.seg]
  split
  · next hle => exact (List.getElem?_eq_none hle).symm
  · rfl

omit [DecidableEq α] in
theorem Rep.mem_iff_get {k : QueueElements α} {q : Queue α} {l : List α} {a : α} (h : Rep k q l) :
    a ∈ l ↔ ∃ pos, q.get k pos = some a := by
  rw [List.mem_iff_getElem?]
  exact exists_congr fun pos => by rw [h.get]

omit [DecidableEq α] in
/-- An element is at one position only. -/
theorem Rep.get_inj {k : QueueElements α} {q : Queue α} {l : List α} {a : α} {pos pos' : Nat}
    (h : Rep k q l) (hpos : q.get k pos = some a) (hpos' : q.get k pos' = some a) :
    pos = pos' := by
  rw [h.get] at hpos hpos'
  obtain ⟨hlt, -⟩ := List.getElem?_eq_some_iff.mp hpos
  exact (List.getElem?_inj hlt h.nodup).mp (hpos.trans hpos'.symm)

end

/-! ## Several queues in the same links -/

/-- In the links `k` the queues are the lists, and no element is in two of them. -/
structure Family {ι : Type} (k : QueueElements α) (queue : ι → Queue α) (lists : ι → List α) :
    Prop where
  rep : ∀ i, Rep k (queue i) (lists i)
  disjoint : ∀ i j a, a ∈ lists i → a ∈ lists j → i = j

section
variable {ι : Type} [DecidableEq ι] {k k' : QueueElements α} {queue : ι → Queue α}
  {lists : ι → List α} {q' : Queue α} {l' : List α} {a : α} {i : ι}

/-- Relinking the queue `i` within elements `m` that are in no other queue. -/
theorem Family.relink {m : List α} (h : Family k queue lists)
    (hm : ∀ j, ∀ b ∈ lists j, b ∈ m → j = i) (hrep : Rep k' q' l') (hl' : l' ⊆ m)
    (hagree : AgreeOff m k k') :
    Family k' (Function.update queue i q') (Function.update lists i l') := by
  refine ⟨fun j => ?_, fun j j' b hb hb' => ?_⟩
  · by_cases hj : j = i
    · subst hj
      simpa using hrep
    · rw [Function.update_of_ne hj, Function.update_of_ne hj]
      exact (h.rep j).frame hagree fun b hb hbm => hj (hm j b hb hbm)
  · by_cases hj : j = i <;> by_cases hj' : j' = i
    · rw [hj, hj']
    · subst hj
      rw [Function.update_self] at hb
      rw [Function.update_of_ne hj'] at hb'
      exact (hm j' b hb' (hl' hb)).symm
    · subst hj'
      rw [Function.update_self] at hb'
      rw [Function.update_of_ne hj] at hb
      exact hm j b hb (hl' hb')
    · rw [Function.update_of_ne hj] at hb
      rw [Function.update_of_ne hj'] at hb'
      exact h.disjoint j j' b hb hb'

/-- Relinking the queue `i` with its own elements. -/
theorem Family.relink_self (h : Family k queue lists) (hrep : Rep k' q' l') (hl' : l' ⊆ lists i)
    (hagree : AgreeOff (lists i) k k') :
    Family k' (Function.update queue i q') (Function.update lists i l') :=
  h.relink (fun j b hb hbi => h.disjoint j i b hb hbi) hrep hl' hagree

/-- Relinking the queue `i` with its own elements and one that is in no other queue. -/
theorem Family.relink_cons (h : Family k queue lists) (ha : ∀ j, a ∈ lists j → j = i)
    (hrep : Rep k' q' l') (hl' : l' ⊆ a :: lists i) (hagree : AgreeOff (a :: lists i) k k') :
    Family k' (Function.update queue i q') (Function.update lists i l') := by
  refine h.relink (fun j b hb hbi => ?_) hrep hl' hagree
  rcases List.mem_cons.mp hbi with e | hbi
  · exact ha j (e ▸ hb)
  · exact h.disjoint j i b hb hbi

theorem Family.dequeueFirst_cons [DecidableEq α] {l : List α} (h : Family k queue lists)
    (hi : lists i = a :: l) :
    ∃ k' q', (queue i).dequeueFirst k = .ok (some a, k', q') ∧
      Family k' (Function.update queue i q') (Function.update lists i l) := by
  have hrep := h.rep i
  rw [hi] at hrep
  obtain ⟨k', q', hok, hrep', hagree, -⟩ := hrep.dequeueFirst_cons
  exact ⟨k', q', hok, h.relink_self hrep' (by simp [hi]) (hi ▸ hagree)⟩

/-- Enqueuing an element that is in none of the queues. -/
theorem Family.enqueue [DecidableEq α] [Fintype α] (h : Family k queue lists)
    (ha : ∀ j, a ∉ lists j) (i : ι) :
    ∃ k' q', (queue i).enqueue k a = .ok (k', q') ∧
      Family k' (Function.update queue i q') (Function.update lists i (lists i ++ [a])) := by
  obtain ⟨k', q', hok, hrep, hagree⟩ := (h.rep i).enqueue (ha i)
  exact ⟨k', q', hok, h.relink_cons (fun j hj => (ha j hj).elim) hrep (by simp) hagree⟩

theorem Family.remove [DecidableEq α] [Fintype α] (h : Family k queue lists) (i : ι) (a : α) :
    ∃ k' q', (queue i).remove k a = .ok (k', q') ∧
      Family k' (Function.update queue i q') (Function.update lists i ((lists i).erase a)) := by
  obtain ⟨k', q', hok, hrep, hagree, -⟩ := (h.rep i).remove (a := a)
  exact ⟨k', q', hok, h.relink_self hrep List.erase_subset hagree⟩

/-! ### Shared elements

An element has one pair of links. It can still be in several lists if it has no neighbour in any. -/

omit [DecidableEq ι] in
/-- Two lists with a common element have no other element. -/
def SharedAlone (lists : ι → List α) : Prop :=
  ∀ i j a, i ≠ j → a ∈ lists i → a ∈ lists j → lists i = [a] ∧ lists j = [a]

omit [DecidableEq ι] in
theorem SharedAlone.of_length_le_one (h : ∀ i, (lists i).length ≤ 1) : SharedAlone lists := by
  have hone : ∀ i a, a ∈ lists i → lists i = [a] := by
    intro i a ha
    obtain ⟨b, hb⟩ := List.length_eq_one_iff.mp
      (le_antisymm (h i) (List.length_pos_of_mem ha))
    rw [hb] at ha ⊢
    rw [List.mem_singleton.mp ha]
  exact fun i j a _ hi hj => ⟨hone i a hi, hone j a hj⟩

/-- In the links `k` the queues are the lists, and elements are shared alone. -/
structure SharedFamily (k : QueueElements α) (queue : ι → Queue α) (lists : ι → List α) :
    Prop where
  rep : ∀ i, Rep k (queue i) (lists i)
  alone : SharedAlone lists

/-- Relinking the queue `i` within elements `m`. Those that another list shares must have been left
without neighbours. -/
theorem SharedFamily.relink {m : List α} (h : SharedFamily k queue lists)
    (halone : SharedAlone (Function.update lists i l')) (hrep : Rep k' q' l')
    (hagree : AgreeOff m k k') (hm : ∀ b ∈ m, ∀ j ≠ i, b ∈ lists j →
      lists j = [b] ∧ k'.pNext b = none ∧ k'.pPrevious b = none) :
    SharedFamily k' (Function.update queue i q') (Function.update lists i l') := by
  refine ⟨fun j => ?_, halone⟩
  rcases eq_or_ne j i with rfl | hj
  · simpa using hrep
  · rw [Function.update_of_ne hj, Function.update_of_ne hj]
    by_cases hdisj : ∀ b ∈ lists j, b ∉ m
    · exact (h.rep j).frame hagree hdisj
    · simp only [not_forall, not_not] at hdisj
      obtain ⟨b, hb, hbm⟩ := hdisj
      obtain ⟨hl, hnext, hprev⟩ := hm b hbm j hj hb
      refine { h.rep j with seg := ?_ }
      rw [hl, seg_cons]
      exact ⟨hprev, hnext, trivial⟩

theorem SharedAlone.sublist (h : SharedAlone lists) (hl : l'.Sublist (lists i)) :
    SharedAlone (Function.update lists i l') := by
  have hsub : ∀ j, (Function.update lists i l' j).Sublist (lists j) := by
    intro j
    rcases eq_or_ne j i with rfl | hj
    · rwa [Function.update_self]
    · rw [Function.update_of_ne hj]
  have hone : ∀ {l : List α} {b : α}, b ∈ l → l.Sublist [b] → l = [b] := by
    intro l b hbl hl
    rcases List.sublist_singleton.mp hl with rfl | rfl
    · cases hbl
    · rfl
  intro j j' b hj hb hb'
  obtain ⟨hl, hl'⟩ := h j j' b hj ((hsub j).subset hb) ((hsub j').subset hb')
  exact ⟨hone hb (hl ▸ hsub j), hone hb' (hl' ▸ hsub j')⟩

/-- When a list grows by one element and the links still fit all lists, elements are still shared
alone. -/
theorem SharedAlone.snoc (h : SharedAlone lists)
    (hrep : ∀ j, Rep k (queue j) (Function.update lists i (lists i ++ [a]) j)) :
    SharedAlone (Function.update lists i (lists i ++ [a])) := by
  have main : ∀ j b, j ≠ i → b ∈ lists i ++ [a] → b ∈ lists j →
      lists i ++ [a] = [b] ∧ lists j = [b] := by
    intro j b hj hb hbj
    have hi : Rep k (queue i) (lists i ++ [a]) := by simpa using hrep i
    have hsame := hi.seg.eq_of_mem (by simpa [hj] using (hrep j).seg) hb hbj
    cases hl : lists i with
    | nil =>
      rw [hl, List.nil_append] at hsame hb
      obtain rfl := List.mem_singleton.mp hb
      exact ⟨rfl, hsame.symm⟩
    | cons c l =>
      -- then `c` was shared with a neighbour before
      rw [hl] at hsame
      have hold := h i j c hj.symm (by simp [hl]) (hsame ▸ by simp)
      rw [hold.2] at hsame
      simp at hsame
  intro j j' b hj hb hb'
  by_cases hji : j = i
  · obtain rfl := hji
    rw [Function.update_self] at hb ⊢
    rw [Function.update_of_ne hj.symm] at hb' ⊢
    exact main j' b hj.symm hb hb'
  · rw [Function.update_of_ne hji] at hb ⊢
    by_cases hji' : j' = i
    · obtain rfl := hji'
      rw [Function.update_self] at hb' ⊢
      exact (main j b hji hb' hb).symm
    · rw [Function.update_of_ne hji'] at hb' ⊢
      exact h j j' b hj hb hb'

section
variable [DecidableEq α] [Fintype α]

/-- Enqueuing keeps the family if elements are still shared alone. -/
theorem SharedFamily.enqueue (h : SharedFamily k queue lists)
    (halone : SharedAlone (Function.update lists i
      (if a ∈ lists i then lists i else lists i ++ [a]))) :
    ∃ k' q', (queue i).enqueue k a = .ok (k', q') ∧
      SharedFamily k' (Function.update queue i q') (Function.update lists i
        (if a ∈ lists i then lists i else lists i ++ [a])) := by
  by_cases ha : a ∈ lists i
  · refine ⟨k, queue i, (h.rep i).enqueue_mem ha, ?_⟩
    rw [if_pos ha, Function.update_eq_self, Function.update_eq_self]
    exact h
  · rw [if_neg ha] at halone ⊢
    obtain ⟨k', q', hok, hrep, hagree⟩ := (h.rep i).enqueue ha
    refine ⟨k', q', hok, h.relink halone hrep hagree fun b hb j hj hbj => ?_⟩
    have hin : b ∈ lists i ++ [a] := by
      rw [List.mem_append, List.mem_singleton]
      exact (List.mem_cons.mp hb).symm
    have hshared := halone i j b hj.symm (by simpa using hin) (by simpa [hj] using hbj)
    rw [Function.update_self, Function.update_of_ne hj] at hshared
    have hrep' : Rep k' q' ([] ++ b :: []) := hshared.1 ▸ hrep
    exact ⟨hshared.2, hrep'.next_eq, hrep'.prev_eq⟩

theorem SharedFamily.remove (h : SharedFamily k queue lists) :
    ∃ k' q', (queue i).remove k a = .ok (k', q') ∧
      SharedFamily k' (Function.update queue i q')
        (Function.update lists i ((lists i).erase a)) := by
  obtain ⟨k', q', hok, hrep, hagree, hclear⟩ := (h.rep i).remove (a := a)
  refine ⟨k', q', hok, h.relink (h.alone.sublist List.erase_sublist) hrep hagree
    fun b hb j hj hbj => ?_⟩
  obtain ⟨hi, hl⟩ := h.alone i j b hj.symm hb hbj
  refine ⟨hl, ?_⟩
  rcases eq_or_ne a b with rfl | hab
  · exact hclear hb
  · rw [hi, List.erase_of_not_mem (by simpa using hab)] at hrep
    have hrep' : Rep k' q' ([] ++ b :: []) := hrep
    exact ⟨hrep'.next_eq, hrep'.prev_eq⟩

theorem SharedFamily.clearList (h : SharedFamily k queue lists) :
    ∃ k' q', (queue i).clearList k = .ok (k', q') ∧
      SharedFamily k' (Function.update queue i q') (Function.update lists i []) := by
  obtain ⟨k', q', hok, hrep, hagree, hclear⟩ := (h.rep i).clearList
  refine ⟨k', q', hok, h.relink (h.alone.sublist (List.nil_sublist _)) hrep hagree
    fun b hb j hj hbj => ?_⟩
  exact ⟨(h.alone i j b hj.symm hb hbj).2, hclear b hb⟩

end

end

end Queue

end CyPhOS
