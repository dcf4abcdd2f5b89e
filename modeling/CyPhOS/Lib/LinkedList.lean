import Mathlib.Data.Fintype.Card
import Mathlib.Data.List.Nodup
import Mathlib.Logic.Function.Basic

/-! # Doubly linked lists threaded through a heap

The nodes of a heap carry two link fields, `next` and `prev`, each a function from nodes to
optional nodes. `Seg next prev p l q` says that the links thread the nodes of `l`, entered from
`p` and left towards `q`. The two ways to change a list are `Seg.link`, which opens a gap between
two segments for a new node, and `Seg.unlink`, which closes the gap left by a node; both write
through `setAt`, the write to a field of an optional node.

`walk` is the pointer-chasing loop that looks for the first node with a property. Its fuel is the
number of nodes in the heap: a loop that has not met `none` after so many steps is on a cycle.
-/

namespace LinkedList

variable {α : Type*}

/-! ## Segments -/

/-- The links thread `l`, whose first node points back to `p` and whose last points on to `q`. -/
def Seg (next prev : α → Option α) : Option α → List α → Option α → Prop
  | _, [], _ => True
  | p, a :: l, q => prev a = p ∧ next a = l.head?.or q ∧ Seg next prev (some a) l q

@[simp] theorem seg_nil {next prev : α → Option α} {p q : Option α} : Seg next prev p [] q :=
  trivial

theorem seg_cons {next prev : α → Option α} {p q : Option α} {a : α} {l : List α} :
    Seg next prev p (a :: l) q ↔
      prev a = p ∧ next a = l.head?.or q ∧ Seg next prev (some a) l q := .rfl

theorem seg_append {next prev : α → Option α} {p q : Option α} {l m : List α} :
    Seg next prev p (l ++ m) q ↔
      Seg next prev p l (m.head?.or q) ∧ Seg next prev (l.getLast?.or p) m q := by
  induction l generalizing p with
  | nil => simp
  | cons a l ih =>
    have hlast : (a :: l).getLast?.or p = l.getLast?.or (some a) := by
      cases l <;> simp [List.getLast?_cons]
    rw [List.cons_append, seg_cons, seg_cons, ih, hlast, List.head?_append, Option.or_assoc]
    tauto

/-- A segment only depends on the links of its own nodes. -/
theorem Seg.congr {next next' prev prev' : α → Option α} {p q : Option α} {l : List α}
    (h : Seg next prev p l q) (hn : ∀ a ∈ l, next' a = next a) (hp : ∀ a ∈ l, prev' a = prev a) :
    Seg next' prev' p l q := by
  induction l generalizing p with
  | nil => trivial
  | cons a l ih =>
    obtain ⟨h1, h2, h3⟩ := h
    refine ⟨(hp a (by simp)).trans h1, (hn a (by simp)).trans h2, ih h3 ?_ ?_⟩
    · exact fun b hb => hn b (List.mem_cons_of_mem _ hb)
    · exact fun b hb => hp b (List.mem_cons_of_mem _ hb)

theorem Seg.next_eq {next prev : α → Option α} {p q : Option α} {l m : List α} {a : α}
    (h : Seg next prev p (l ++ a :: m) q) : next a = m.head?.or q :=
  (seg_append.mp h).2.2.1

theorem Seg.prev_eq {next prev : α → Option α} {p q : Option α} {l m : List α} {a : α}
    (h : Seg next prev p (l ++ a :: m) q) : prev a = l.getLast?.or p :=
  (seg_append.mp h).2.1

/-- Two segments up to the end that begin at the same node are the same. -/
theorem Seg.eq_of_head {next prev : α → Option α} {p p' : Option α} {l m : List α}
    (h : Seg next prev p l none) (h' : Seg next prev p' m none) (hhead : l.head? = m.head?) :
    l = m := by
  induction l generalizing m p p' with
  | nil => simpa [eq_comm, List.head?_eq_none_iff] using hhead
  | cons a l ih =>
    cases m with
    | nil => simp at hhead
    | cons b m =>
      cases Option.some.inj hhead
      rw [seg_cons, Option.or_none] at h h'
      rw [ih h.2.2 h'.2.2 (h.2.1.symm.trans h'.2.1)]

/-- Two segments from the beginning that end at the same node are the same. -/
theorem Seg.eq_of_getLast {next prev : α → Option α} {q q' : Option α} {l m : List α}
    (h : Seg next prev none l q) (h' : Seg next prev none m q')
    (hlast : l.getLast? = m.getLast?) : l = m := by
  induction l using List.reverseRecOn generalizing m q q' with
  | nil => simpa [eq_comm, List.getLast?_eq_none_iff] using hlast
  | append_singleton l a ih =>
    cases m using List.reverseRecOn with
    | nil => simp at hlast
    | append_singleton m b =>
      obtain rfl : a = b := by simpa using hlast
      have hprev := h.prev_eq.symm.trans h'.prev_eq
      rw [Option.or_none, Option.or_none] at hprev
      rw [ih (seg_append.mp h).1 (seg_append.mp h').1 hprev]

/-- Lists that the links thread from beginning to end are the same if they have a node in common. -/
theorem Seg.eq_of_mem {next prev : α → Option α} {l m : List α} {a : α}
    (h : Seg next prev none l none) (h' : Seg next prev none m none) (hl : a ∈ l) (hm : a ∈ m) :
    l = m := by
  obtain ⟨l₁, l₂, rfl⟩ := List.append_of_mem hl
  obtain ⟨m₁, m₂, rfl⟩ := List.append_of_mem hm
  obtain ⟨hfront, hback⟩ := seg_append.mp h
  obtain ⟨hfront', hback'⟩ := seg_append.mp h'
  have hlast : l₁.getLast? = m₁.getLast? := by
    simpa using h.prev_eq.symm.trans h'.prev_eq
  rw [hfront.eq_of_getLast hfront' hlast, hback.eq_of_head hback' rfl]

/-! ## Writing a link field -/

section
variable [DecidableEq α]

/-- Write `v` to the field `f` of the node `o` points to, if it points to one. -/
def setAt (f : α → Option α) (o v : Option α) : α → Option α :=
  match o with
  | none => f
  | some a => Function.update f a v

@[simp] theorem setAt_none {f : α → Option α} {v : Option α} : setAt f none v = f := rfl

@[simp] theorem setAt_self {f : α → Option α} {v : Option α} {a : α} :
    setAt f (some a) v a = v := by simp [setAt]

theorem setAt_of_ne {f : α → Option α} {o v : Option α} {b : α} (h : o ≠ some b) :
    setAt f o v b = f b := by
  cases o with
  | none => rfl
  | some a => exact Function.update_of_ne (fun e => h (congrArg some e.symm)) _ _

theorem setAt_of_notMem_head {f : α → Option α} {v : Option α} {l : List α} {b : α}
    (h : b ∉ l) : setAt f l.head? v b = f b :=
  setAt_of_ne fun e => h (List.mem_of_mem_head? e)

theorem setAt_of_notMem_getLast {f : α → Option α} {v : Option α} {l : List α} {b : α}
    (h : b ∉ l) : setAt f l.getLast? v b = f b :=
  setAt_of_ne fun e => h (List.mem_of_mem_getLast? e)

/-- Redirecting the last node of a segment. -/
theorem Seg.set_last {next prev : α → Option α} {p q : Option α} {l : List α}
    (h : Seg next prev p l q) (hl : l.Nodup) (q' : Option α) :
    Seg (setAt next l.getLast? q') prev p l q' := by
  rcases List.eq_nil_or_concat l with rfl | ⟨m, z, rfl⟩
  · trivial
  have hz : z ∉ m := by
    rw [List.concat_eq_append, List.nodup_append] at hl
    exact fun hm => hl.2.2 z hm z (by simp) rfl
  simp only [List.concat_eq_append, List.getLast?_append, List.getLast?_singleton,
    Option.some_or] at h ⊢
  rw [seg_append] at h ⊢
  refine ⟨h.1.congr (fun a ha => setAt_of_ne ?_) fun _ _ => rfl, h.2.1, ?_, trivial⟩
  · rintro ⟨⟩
    exact hz ha
  · simp

/-- Redirecting the back link of the first node of a segment. -/
theorem Seg.set_first {next prev : α → Option α} {p q : Option α} {l : List α}
    (h : Seg next prev p l q) (hl : l.Nodup) (p' : Option α) :
    Seg next (setAt prev l.head? p') p' l q := by
  cases l with
  | nil => trivial
  | cons a l =>
    refine ⟨by simp, h.2.1, h.2.2.congr (fun _ _ => rfl) fun b hb => setAt_of_ne ?_⟩
    rintro ⟨⟩
    exact (List.nodup_cons.mp hl).1 hb

/-- Linking a new node `a` in between two segments. -/
theorem Seg.link {next prev : α → Option α} {l m : List α} {a : α}
    (h : Seg next prev none (l ++ m) none) (hl : (l ++ a :: m).Nodup) :
    Seg (Function.update (setAt next l.getLast? (some a)) a m.head?)
      (Function.update (setAt prev m.head? (some a)) a l.getLast?) none (l ++ a :: m) none := by
  obtain ⟨hdl, hdm, hdis⟩ := List.nodup_append.mp hl
  have ham : a ∉ m := (List.nodup_cons.mp hdm).1
  have hal : a ∉ l := fun hm => hdis a hm a (by simp) rfl
  have hdisj : ∀ b ∈ m, b ∉ l := fun b hb hbl => hdis b hbl b (List.mem_cons_of_mem _ hb) rfl
  obtain ⟨h1, h2⟩ := seg_append.mp h
  rw [seg_append, seg_cons]
  refine ⟨?_, by simp, by simp, ?_⟩
  · refine (h1.set_last hdl (some a)).congr (fun b hb => ?_) fun b hb => ?_
    · exact Function.update_of_ne (ne_of_mem_of_not_mem hb hal) _ _
    · rw [Function.update_of_ne (ne_of_mem_of_not_mem hb hal)]
      exact setAt_of_notMem_head fun hm => hdisj b hm hb
  · refine (h2.set_first (List.nodup_cons.mp hdm).2 (some a)).congr
      (fun b hb => ?_) fun b hb => ?_
    · rw [Function.update_of_ne (ne_of_mem_of_not_mem hb ham)]
      exact setAt_of_notMem_getLast (hdisj b hb)
    · exact Function.update_of_ne (ne_of_mem_of_not_mem hb ham) _ _

/-- Taking the node `a` out from between two segments. -/
theorem Seg.unlink {next prev : α → Option α} {l m : List α} {a : α}
    (h : Seg next prev none (l ++ a :: m) none) (hl : (l ++ a :: m).Nodup) :
    Seg (setAt next l.getLast? m.head?) (setAt prev m.head? l.getLast?) none (l ++ m) none := by
  obtain ⟨hdl, hdm, hdis⟩ := List.nodup_append.mp hl
  have hdisj : ∀ b ∈ m, b ∉ l := fun b hb hbl => hdis b hbl b (List.mem_cons_of_mem _ hb) rfl
  obtain ⟨h1, h2⟩ := seg_append.mp h
  rw [seg_append, Option.or_none, Option.or_none]
  constructor
  · refine (h1.set_last hdl _).congr (fun _ _ => rfl) fun b hb => ?_
    exact setAt_of_notMem_head fun hm => hdisj b hm hb
  · refine ((seg_cons.mp h2).2.2.set_first (List.nodup_cons.mp hdm).2 _).congr (fun b hb => ?_)
      fun _ _ => rfl
    exact setAt_of_notMem_getLast (hdisj b hb)

end

/-! ## Walking -/

/-- Follow `next` from `o` to the first node that satisfies `stop`. The result is `none` if the
fuel does not reach the end of the list. -/
def walk (next : α → Option α) (stop : α → Bool) : Nat → Option α → Option (Option α)
  | _, none => some none
  | 0, some _ => none
  | fuel + 1, some a => if stop a then some (some a) else walk next stop fuel (next a)

/-- On a segment that ends in `none` the walk finds what a search of the list finds. -/
theorem walk_eq_find {next prev : α → Option α} {stop : α → Bool} {p : Option α} {l : List α}
    {fuel : Nat} (h : Seg next prev p l none) (hfuel : l.length ≤ fuel) :
    walk next stop fuel l.head? = some (l.find? stop) := by
  induction l generalizing p fuel with
  | nil => cases fuel <;> rfl
  | cons a l ih =>
    obtain ⟨fuel, rfl⟩ := Nat.exists_eq_add_of_le' (Nat.lt_of_lt_of_le (Nat.succ_pos _) hfuel)
    obtain ⟨-, hnext, h⟩ := h
    rw [Option.or_none] at hnext
    have hlen : l.length ≤ fuel := by simpa using hfuel
    by_cases ha : stop a = true
    · simp [walk, ha]
    · simp [walk, ha, hnext, ih h hlen]

end LinkedList
