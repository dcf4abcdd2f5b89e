import CyPhOS.Lib.Run
import Mathlib.Data.List.Nodup
import Mathlib.Data.List.Perm.Basic

/-! # What a timer is for

An `Agenda` is the abstract timer: events wait in two pools, a oneshot event on the agenda has a
number of ticks to go, a periodic event an interval and the ticks to go in it. Both lists are in the
order of insertion. A tick counts everything down, fires what has nothing to go, takes the oneshot
events that fire off the agenda and reloads the periodic ones.

The second half derives from this when an event fires, in terms of the labels of a run alone:
`oneshot_fires`, `oneshot_order` and `periodic_fires`, and that nothing else ever does.
-/

namespace CyPhOS

open Transition

structure Agenda (E : Type) where
  oneshotPool : List E
  periodicPool : List E
  oneshots : List (E × Nat)
  periodics : List (E × Nat × Nat)

namespace Agenda

variable {E : Type} [DecidableEq E]

/-- The oneshot events with one tick less to go. -/
def countedDown (a : Agenda E) : List (E × Nat) := a.oneshots.map fun x => (x.1, x.2 - 1)

def firedOneshots (a : Agenda E) : List E :=
  (a.countedDown.filter fun x => x.2 = 0).map Prod.fst

def firedPeriodics (a : Agenda E) : List E :=
  (a.periodics.filter fun x => x.2.2 - 1 = 0).map Prod.fst

def tick (a : Agenda E) : Agenda E :=
  { a with
    oneshots := a.countedDown.filter fun x => x.2 ≠ 0
    periodics := a.periodics.map fun x =>
      (x.1, x.2.1, if x.2.2 - 1 = 0 then x.2.1 else x.2.2 - 1) }

/-- What can happen to an agenda, with its outcome. A pool that is empty gives no event. -/
inductive Label (E : Type)
  | setOneshot (ticks : Nat) (event : Option E)
  | setPeriodic (ticks : Nat) (event : Option E)
  | cancelOneshot (event : E)
  | cancelPeriodic (event : E)
  | returnOneshot (event : E)
  | tick (oneshots periodics : List E)

inductive Step : Agenda E → Label E → Agenda E → Prop
  | setOneshot {a e pool r} : a.oneshotPool = e :: pool → 0 < r →
    Step a (.setOneshot r (some e))
      { a with oneshotPool := pool, oneshots := a.oneshots ++ [(e, r)] }
  | setPeriodic {a e pool n} : a.periodicPool = e :: pool → 0 < n →
    Step a (.setPeriodic n (some e))
      { a with periodicPool := pool, periodics := a.periodics ++ [(e, n, n)] }
  | noOneshot {a r} : a.oneshotPool = [] → Step a (.setOneshot r none) a
  | noPeriodic {a n} : a.periodicPool = [] → Step a (.setPeriodic n none) a
  | cancelOneshot {a e} : e ∈ a.oneshots.map Prod.fst →
    Step a (.cancelOneshot e)
      { a with
        oneshotPool := a.oneshotPool ++ [e]
        oneshots := a.oneshots.filter fun x => x.1 ≠ e }
  | cancelPeriodic {a e} : e ∈ a.periodics.map Prod.fst →
    Step a (.cancelPeriodic e)
      { a with
        periodicPool := a.periodicPool ++ [e]
        periodics := a.periodics.filter fun x => x.1 ≠ e }
  | returnOneshot {a e} : e ∉ a.oneshots.map Prod.fst → e ∉ a.oneshotPool →
    e ∉ a.periodics.map Prod.fst → e ∉ a.periodicPool →
    Step a (.returnOneshot e) { a with oneshotPool := a.oneshotPool ++ [e] }
  | tick {a} : Step a (.tick a.firedOneshots a.firedPeriodics) a.tick

/-- The places an event can be in. -/
def places (a : Agenda E) : List E :=
  a.oneshots.map Prod.fst ++ a.oneshotPool ++ (a.periodics.map Prod.fst ++ a.periodicPool)

/-- Every event is in one place, and every counter is running. -/
structure Inv (a : Agenda E) : Prop where
  nodup : a.places.Nodup
  oneshots_pos : ∀ x ∈ a.oneshots, 0 < x.2
  periodics_pos : ∀ x ∈ a.periodics, 0 < x.2.1 ∧ 0 < x.2.2

variable {a b : Agenda E} {l : Label E} {e e' : E} {r n : Nat} {xs ys zs ls : List (Label E)}
  {os ps : List E}

/-- Taking a member out of a list without duplicates and putting it behind. -/
theorem perm_filter_append {γ : Type} {m : List (E × γ)}
    (hm : (m.map Prod.fst).Nodup) (he : e ∈ m.map Prod.fst) :
    ((m.filter fun x => x.1 ≠ e).map Prod.fst ++ [e]).Perm (m.map Prod.fst) := by
  have hfilter : (m.filter fun x => x.1 ≠ e).map Prod.fst = (m.map Prod.fst).filter (· ≠ e) := by
    rw [List.filter_map]
    rfl
  have herase : (m.map Prod.fst).filter (· ≠ e) = (m.map Prod.fst).erase e := by
    rw [hm.erase_eq_filter]
    exact List.filter_congr fun x _ => Bool.eq_iff_iff.mpr (by simp)
  rw [hfilter, herase]
  exact List.perm_append_comm.trans (List.perm_cons_erase he).symm

omit [DecidableEq E] in
/-- The oneshot events that stay on the agenda in a tick. -/
theorem mem_tick_oneshots {x : E × Nat} :
    x ∈ a.tick.oneshots ↔ 0 < x.2 ∧ ∃ y ∈ a.oneshots, x = (y.1, y.2 - 1) := by
  simp only [tick, countedDown, List.mem_filter, List.mem_map, decide_eq_true_eq,
    Nat.pos_iff_ne_zero]
  exact ⟨fun ⟨⟨y, hy, h⟩, hx⟩ => ⟨hx, y, hy, h.symm⟩, fun ⟨hx, y, hy, h⟩ => ⟨⟨y, hy, h.symm⟩, hx⟩⟩

omit [DecidableEq E] in
theorem countedDown_keys : a.countedDown.map Prod.fst = a.oneshots.map Prod.fst := by
  rw [countedDown, List.map_map]
  rfl

omit [DecidableEq E] in
theorem tick_oneshots_sublist :
    (a.tick.oneshots.map Prod.fst).Sublist (a.oneshots.map Prod.fst) := by
  rw [← countedDown_keys (a := a)]
  exact List.filter_sublist.map Prod.fst

omit [DecidableEq E] in
theorem tick_periodics_keys : a.tick.periodics.map Prod.fst = a.periodics.map Prod.fst := by
  rw [tick, List.map_map]
  rfl

theorem Inv.step (h : a.Inv) (hstep : Step a l b) : b.Inv := by
  obtain ⟨hnodup, hone, hper⟩ := h
  unfold places at hnodup
  cases hstep with
  | @setOneshot e pool r hpool hr =>
    refine ⟨?_, fun x hx => ?_, hper⟩
    · simpa [places, hpool] using hnodup
    · rcases List.mem_append.mp hx with hx | hx
      · exact hone x hx
      · obtain rfl := List.mem_singleton.mp hx
        exact hr
  | @setPeriodic e pool n hpool hn =>
    refine ⟨?_, hone, fun x hx => ?_⟩
    · simpa [places, hpool] using hnodup
    · rcases List.mem_append.mp hx with hx | hx
      · exact hper x hx
      · obtain rfl := List.mem_singleton.mp hx
        exact ⟨hn, hn⟩
  | noOneshot => exact ⟨hnodup, hone, hper⟩
  | noPeriodic => exact ⟨hnodup, hone, hper⟩
  | @cancelOneshot e he =>
    refine ⟨?_, fun x hx => hone x (List.mem_of_mem_filter hx), hper⟩
    have hkeys := (List.nodup_append.mp (List.nodup_append.mp hnodup).1).1
    have hperm := perm_filter_append hkeys he
    have hall : ((a.oneshots.filter fun x => x.1 ≠ e).map Prod.fst ++ (a.oneshotPool ++ [e])).Perm
        (a.oneshots.map Prod.fst ++ a.oneshotPool) := by
      refine ((List.perm_append_comm.append_left _).trans ?_)
      rw [← List.append_assoc]
      exact hperm.append_right _
    exact (hall.append_right _).nodup_iff.mpr hnodup
  | @cancelPeriodic e he =>
    refine ⟨?_, hone, fun x hx => hper x (List.mem_of_mem_filter hx)⟩
    have hkeys := (List.nodup_append.mp (List.nodup_append.mp hnodup).2.1).1
    have hperm := perm_filter_append hkeys he
    have hall : ((a.periodics.filter fun x => x.1 ≠ e).map Prod.fst ++
        (a.periodicPool ++ [e])).Perm (a.periodics.map Prod.fst ++ a.periodicPool) := by
      refine ((List.perm_append_comm.append_left _).trans ?_)
      rw [← List.append_assoc]
      exact hperm.append_right _
    exact (hall.append_left _).nodup_iff.mpr hnodup
  | @returnOneshot e h1 h2 h3 h4 =>
    refine ⟨?_, hone, hper⟩
    have hperm : (a.oneshots.map Prod.fst ++ (a.oneshotPool ++ [e]) ++
        (a.periodics.map Prod.fst ++ a.periodicPool)).Perm (e :: a.places) := by
      rw [← List.append_assoc (a.oneshots.map _), List.append_assoc (_ ++ _) [e]]
      exact List.perm_middle
    refine hperm.nodup_iff.mpr (List.nodup_cons.mpr ⟨?_, hnodup⟩)
    simp only [places, List.mem_append, not_or]
    exact ⟨⟨h1, h2⟩, h3, h4⟩
  | tick =>
    refine ⟨?_, fun x hx => (mem_tick_oneshots.mp hx).1, fun x hx => ?_⟩
    · rw [places, tick_periodics_keys]
      exact hnodup.sublist ((tick_oneshots_sublist.append_right _).append_right _)
    · obtain ⟨y, hy, rfl⟩ := List.mem_map.mp hx
      obtain ⟨hn, hm⟩ := hper y hy
      refine ⟨hn, ?_⟩
      show 0 < if y.2.2 - 1 = 0 then y.2.1 else y.2.2 - 1
      split <;> omega

theorem Inv.run (h : a.Inv) (hrun : Run Step a ls b) : b.Inv :=
  hrun.invariant h fun h hstep => h.step hstep

omit [DecidableEq E] in
theorem Inv.keys_nodup (h : a.Inv) : (a.oneshots.map Prod.fst).Nodup :=
  (List.nodup_append.mp (List.nodup_append.mp h.nodup).1).1

omit [DecidableEq E] in
theorem Inv.periodic_keys_nodup (h : a.Inv) : (a.periodics.map Prod.fst).Nodup :=
  (List.nodup_append.mp (List.nodup_append.mp h.nodup).2.1).1

omit [DecidableEq E] in
/-- An event has one entry. -/
theorem Inv.eq_of_mem (h : a.Inv) {m m' : Nat} (hm : (e, m) ∈ a.oneshots)
    (hm' : (e, m') ∈ a.oneshots) : m = m' :=
  congrArg Prod.snd (List.inj_on_of_nodup_map h.keys_nodup hm hm' rfl)

omit [DecidableEq E] in
/-- In a tick fires what has one tick to go. -/
theorem mem_firedOneshots (h : a.Inv) : e ∈ a.firedOneshots ↔ (e, 1) ∈ a.oneshots := by
  simp only [firedOneshots, countedDown, List.mem_map, List.mem_filter, decide_eq_true_eq]
  constructor
  · rintro ⟨x, ⟨⟨⟨e', m⟩, hy, rfl⟩, hx⟩, rfl⟩
    have hpos := h.oneshots_pos _ hy
    simp only at hx hpos
    rwa [show m = 1 by omega] at hy
  · intro he
    exact ⟨(e, 0), ⟨⟨(e, 1), he, rfl⟩, rfl⟩, rfl⟩

omit [DecidableEq E] in
theorem firedOneshots_nodup (h : a.Inv) : a.firedOneshots.Nodup := by
  have hsub : a.firedOneshots.Sublist (a.oneshots.map Prod.fst) := by
    rw [← countedDown_keys (a := a)]
    exact List.filter_sublist.map Prod.fst
  exact h.keys_nodup.sublist hsub

/-! ## When oneshot events fire -/

def isTick : Label E → Bool
  | .tick _ _ => true
  | _ => false

def ticks (ls : List (Label E)) : Nat := ls.countP isTick

omit [DecidableEq E] in
theorem ticks_snoc : ticks (ls ++ [l]) = ticks ls + if isTick l then 1 else 0 := by
  rw [ticks, List.countP_append, List.countP_singleton]
  rfl

omit [DecidableEq E] in
/-- A run with `n` ticks has an `n`-th one. -/
theorem exists_tick (hn : 0 < n) (hticks : n ≤ ticks ls) :
    ∃ ys os ps zs, ls = ys ++ .tick os ps :: zs ∧ ticks ys + 1 = n := by
  obtain ⟨ys, l, zs, rfl, hl, hys⟩ := exists_nth hn hticks
  cases l with
  | tick os ps => exact ⟨ys, os, ps, zs, rfl, hys⟩
  | _ => exact absurd hl (by simp [isTick])

/-- An event that is not on the agenda is put there by nothing but setting it. -/
theorem Step.notMem (hstep : Step a l b) (he : e ∉ a.oneshots.map Prod.fst)
    (hset : ∀ r, l ≠ .setOneshot r (some e)) : e ∉ b.oneshots.map Prod.fst := by
  cases hstep with
  | @setOneshot e' pool r hpool hr =>
    have hne : e ≠ e' := fun h => hset r (h ▸ rfl)
    simpa [not_or] using ⟨by simpa using he, hne⟩
  | cancelOneshot he' => exact fun h => he ((List.filter_sublist.map Prod.fst).subset h)
  | tick => exact fun h => he (tick_oneshots_sublist.subset h)
  | setPeriodic | noOneshot | noPeriodic | cancelPeriodic | returnOneshot => exact he

theorem run_notMem (hrun : Run Step a ls b) (he : e ∉ a.oneshots.map Prod.fst)
    (hset : ∀ r, .setOneshot r (some e) ∉ ls) : e ∉ b.oneshots.map Prod.fst := by
  induction hrun with
  | nil => exact he
  | @snoc ls b l b' hrun hstep ih =>
    simp only [List.mem_append, List.mem_singleton, not_or] at hset
    exact hstep.notMem (ih fun r => (hset r).1) fun r => Ne.symm (hset r).2

/-- An event on the agenda is kept by every step but a tick and its own cancellation. -/
theorem Step.keep {m : Nat} (hstep : Step a l b) (he : (e, m) ∈ a.oneshots)
    (hcancel : l ≠ .cancelOneshot e) (htick : isTick l = false) : (e, m) ∈ b.oneshots := by
  cases hstep with
  | setOneshot hpool hr => exact List.mem_append_left _ he
  | @cancelOneshot e' he' =>
    have hne : e ≠ e' := fun h => hcancel (h ▸ rfl)
    exact List.mem_filter.mpr ⟨he, by simpa using hne⟩
  | tick => exact absurd htick (by simp [isTick])
  | setPeriodic | noOneshot | noPeriodic | cancelPeriodic | returnOneshot => exact he

omit [DecidableEq E] in
/-- A tick counts an event down or takes it off the agenda. -/
theorem Inv.tick_pending (h : a.Inv) {m : Nat} (he : (e, m) ∈ a.oneshots) :
    (1 < m ∧ (e, m - 1) ∈ a.tick.oneshots) ∨ (m = 1 ∧ e ∉ a.tick.oneshots.map Prod.fst) := by
  have hpos : 0 < m := h.oneshots_pos _ he
  rcases Nat.lt_or_ge 1 m with hm | hm
  · exact .inl ⟨hm, mem_tick_oneshots.mpr ⟨Nat.sub_pos_of_lt hm, (e, m), he, rfl⟩⟩
  · obtain rfl : m = 1 := by omega
    refine .inr ⟨rfl, fun hmem => ?_⟩
    obtain ⟨⟨e', k⟩, hx, rfl⟩ := List.mem_map.mp hmem
    obtain ⟨hk, ⟨e'', k'⟩, hy, heq⟩ := mem_tick_oneshots.mp hx
    obtain ⟨rfl, rfl⟩ := Prod.mk.inj heq
    have := h.eq_of_mem he hy
    simp only at hk
    omega

/-- Along a run that does not cancel it an event counts down with the ticks, as long as it has any
to go. -/
theorem Inv.run_pending (h : a.Inv) (hrun : Run Step a ls b) (he : (e, r) ∈ a.oneshots)
    (hcancel : .cancelOneshot e ∉ ls) (hticks : ticks ls < r) :
    (e, r - ticks ls) ∈ b.oneshots := by
  induction hrun with
  | nil => exact he
  | @snoc ls b l b' hrun hstep ih =>
    simp only [List.mem_append, List.mem_singleton, not_or] at hcancel
    rw [ticks_snoc] at hticks ⊢
    have ih := ih hcancel.1 (by omega)
    cases htick : isTick l with
    | false => exact hstep.keep ih (Ne.symm hcancel.2) htick
    | true =>
      rw [htick] at hticks
      cases hstep with
      | tick =>
        rcases (h.run hrun).tick_pending ih with ⟨-, hmem⟩ | ⟨hm, -⟩
        · simpa [Nat.sub_sub] using hmem
        · simp only [if_true] at hticks
          omega
      | _ => exact absurd htick (by simp [isTick])

/-- When its ticks are over the event is off the agenda, until it is set again. -/
theorem Inv.run_over (h : a.Inv) (hrun : Run Step a ls b) (he : (e, r) ∈ a.oneshots)
    (hcancel : .cancelOneshot e ∉ ls) (hset : ∀ r, .setOneshot r (some e) ∉ ls)
    (hticks : r ≤ ticks ls) : e ∉ b.oneshots.map Prod.fst := by
  have hr : 0 < r := h.oneshots_pos _ he
  obtain ⟨ys, os, ps, zs, rfl, hys⟩ := exists_tick hr hticks
  simp only [List.mem_append, List.mem_cons, not_or] at hcancel hset
  obtain ⟨a₁, hrun₁, hrest⟩ := run_append_iff.mp hrun
  obtain ⟨a₂, htick, hrun₂⟩ := run_cons_iff.mp hrest
  have hpending := h.run_pending hrun₁ he hcancel.1 (by omega)
  refine run_notMem hrun₂ ?_ fun r => (hset r).2.2
  cases htick with
  | tick =>
    rcases (h.run hrun₁).tick_pending hpending with ⟨hm, -⟩ | ⟨-, hgone⟩
    · omega
    · exact hgone

/-- The oneshot event that a label sets is on the agenda. -/
theorem Step.mem_setOneshot (hstep : Step a (.setOneshot r (some e)) b) : (e, r) ∈ b.oneshots := by
  cases hstep with
  | setOneshot hpool hr => exact List.mem_append_right _ (List.mem_singleton_self _)

/-- Up to the tick at which its time is up a oneshot event fires in that tick only. -/
theorem oneshot_due (h : a.Inv)
    (hrun : Run Step a (xs ++ .setOneshot r (some e) :: (ys ++ .tick os ps :: zs)) b)
    (hcancel : .cancelOneshot e ∉ ys) (hticks : ticks ys + 1 ≤ r) :
    e ∈ os ↔ ticks ys + 1 = r := by
  obtain ⟨a₁, hxs, hrest⟩ := run_append_iff.mp hrun
  obtain ⟨a₂, hset, hrest⟩ := run_cons_iff.mp hrest
  obtain ⟨a₃, hys, hrest⟩ := run_append_iff.mp hrest
  obtain ⟨a₄, htick, -⟩ := run_cons_iff.mp hrest
  have h₂ := (h.run hxs).step hset
  have h₃ := h₂.run hys
  have hmem := h₂.run_pending hys hset.mem_setOneshot hcancel hticks
  cases htick with
  | tick =>
    rw [mem_firedOneshots h₃]
    constructor
    · intro he
      have := h₃.eq_of_mem he hmem
      omega
    · intro heq
      rwa [show r - ticks ys = 1 by omega] at hmem

/-- A oneshot event fires in the tick at which its time is up, and in no other until it is set
again. -/
theorem oneshot_fires (h : a.Inv)
    (hrun : Run Step a (xs ++ .setOneshot r (some e) :: (ys ++ .tick os ps :: zs)) b)
    (hcancel : .cancelOneshot e ∉ ys) (hset : ∀ r', .setOneshot r' (some e) ∉ ys) :
    os.Nodup ∧ (e ∈ os ↔ ticks ys + 1 = r) := by
  obtain ⟨a₁, hxs, hrest⟩ := run_append_iff.mp hrun
  obtain ⟨a₂, hset', hrest⟩ := run_cons_iff.mp hrest
  obtain ⟨a₃, hys, hrest⟩ := run_append_iff.mp hrest
  obtain ⟨a₄, htick, -⟩ := run_cons_iff.mp hrest
  have h₂ := (h.run hxs).step hset'
  have h₃ := h₂.run hys
  have hnodup : os.Nodup := by
    cases htick with
    | tick => exact firedOneshots_nodup h₃
  refine ⟨hnodup, ?_⟩
  rcases Nat.lt_or_ge (ticks ys) r with hlt | hge
  · exact oneshot_due h hrun hcancel hlt
  · have hgone := h₂.run_over hys hset'.mem_setOneshot hcancel hset hge
    refine iff_of_false ?_ (by omega)
    cases htick with
    | tick =>
      rw [mem_firedOneshots h₃]
      exact fun he => hgone (List.mem_map_of_mem he)

/-- An event that is not on the agenda, at the beginning or because it was cancelled, does not fire
until it is set. -/
theorem oneshot_silent (h : a.Inv) (hrun : Run Step a (xs ++ (ys ++ .tick os ps :: zs)) b)
    (hxs : xs = [] ∧ a.oneshots = [] ∨ ∃ xs', xs = xs' ++ [.cancelOneshot e])
    (hset : ∀ r, .setOneshot r (some e) ∉ ys) : e ∉ os := by
  obtain ⟨a₁, hrun₁, hrest⟩ := run_append_iff.mp hrun
  obtain ⟨a₂, hys, hrest⟩ := run_append_iff.mp hrest
  obtain ⟨a₃, htick, -⟩ := run_cons_iff.mp hrest
  have hstart : e ∉ a₁.oneshots.map Prod.fst := by
    rcases hxs with ⟨rfl, hnil⟩ | ⟨xs', rfl⟩
    · obtain rfl := run_nil_iff.mp hrun₁
      simp [hnil]
    · obtain ⟨a₀, -, hstep⟩ := run_snoc_iff.mp hrun₁
      cases hstep with
      | cancelOneshot he => simp
  have hnone := run_notMem hys hstart hset
  cases htick with
  | tick =>
    rw [mem_firedOneshots ((h.run hrun₁).run hys)]
    exact fun h => hnone (List.mem_map_of_mem h)

/-- The order of two events on the agenda, as long as both are on it. -/
def Ordered (e e' : E) (a : Agenda E) : Prop :=
  (∃ m m', [(e, m), (e', m')].Sublist a.oneshots) ∨ e ∉ a.oneshots.map Prod.fst ∨
    e' ∉ a.oneshots.map Prod.fst

theorem Ordered.step (h : a.Inv) (horder : Ordered e e' a) (hstep : Step a l b)
    (hcancel : l ≠ .cancelOneshot e) (hcancel' : l ≠ .cancelOneshot e')
    (hset : ∀ r, l ≠ .setOneshot r (some e)) (hset' : ∀ r, l ≠ .setOneshot r (some e')) :
    Ordered e e' b := by
  rcases horder with ⟨m, m', hsub⟩ | hgone | hgone
  · cases hstep with
    | tick =>
      have he := hsub.subset (List.mem_cons_self ..)
      have he' := hsub.subset (List.mem_cons_of_mem _ (List.mem_singleton_self _))
      rcases h.tick_pending he with ⟨hm, -⟩ | ⟨-, hgone⟩
      · rcases h.tick_pending he' with ⟨hm', -⟩ | ⟨-, hgone⟩
        · have h1 : m - 1 ≠ 0 := by omega
          have h2 : m' - 1 ≠ 0 := by omega
          have hdown := (hsub.map fun x => (x.1, x.2 - 1)).filter fun x => x.2 ≠ 0
          refine .inl ⟨m - 1, m' - 1, ?_⟩
          simpa [Agenda.tick, countedDown, h1, h2] using hdown
        · exact .inr (.inr hgone)
      · exact .inr (.inl hgone)
    | setOneshot hpool hr => exact .inl ⟨m, m', hsub.trans (List.sublist_append_left _ _)⟩
    | @cancelOneshot e'' he'' =>
      have hne : e ≠ e'' := fun h => hcancel (h ▸ rfl)
      have hne' : e' ≠ e'' := fun h => hcancel' (h ▸ rfl)
      have hkeep := hsub.filter fun x => x.1 ≠ e''
      exact .inl ⟨m, m', by simpa [hne, hne'] using hkeep⟩
    | setPeriodic | noOneshot | noPeriodic | cancelPeriodic | returnOneshot =>
      exact .inl ⟨m, m', hsub⟩
  · exact .inr (.inl (hstep.notMem hgone hset))
  · exact .inr (.inr (hstep.notMem hgone hset'))

theorem Ordered.run (h : a.Inv) (horder : Ordered e e' a) (hrun : Run Step a ls b)
    (hcancel : .cancelOneshot e ∉ ls) (hcancel' : .cancelOneshot e' ∉ ls)
    (hset : ∀ r, .setOneshot r (some e) ∉ ls) (hset' : ∀ r, .setOneshot r (some e') ∉ ls) :
    Ordered e e' b := by
  induction hrun with
  | nil => exact horder
  | @snoc ls b l b' hrun hstep ih =>
    simp only [List.mem_append, List.mem_singleton, not_or] at hcancel hcancel' hset hset'
    exact (ih hcancel.1 hcancel'.1 (fun r => (hset r).1) fun r => (hset' r).1).step (h.run hrun)
      hstep (Ne.symm hcancel.2) (Ne.symm hcancel'.2) (fun r => Ne.symm (hset r).2)
      fun r => Ne.symm (hset' r).2

/-- Two events that fire in one tick fire in the order in which they were set. -/
theorem oneshot_order (h : a.Inv) {r' : Nat} {ys' : List (Label E)}
    (hrun : Run Step a (xs ++ .setOneshot r (some e) ::
      (ys ++ .setOneshot r' (some e') :: (ys' ++ .tick os ps :: zs))) b)
    (hcancel : .cancelOneshot e ∉ ys ++ ys') (hcancel' : .cancelOneshot e' ∉ ys')
    (hset : ∀ r, .setOneshot r (some e) ∉ ys ++ .setOneshot r' (some e') :: ys')
    (hset' : ∀ r, .setOneshot r (some e') ∉ ys') (he : e ∈ os) (he' : e' ∈ os) :
    [e, e'].Sublist os := by
  simp only [List.mem_append, List.mem_cons, not_or] at hcancel hset
  obtain ⟨a₁, hxs, hrest⟩ := run_append_iff.mp hrun
  obtain ⟨a₂, hstep, hrest⟩ := run_cons_iff.mp hrest
  obtain ⟨a₃, hys, hrest⟩ := run_append_iff.mp hrest
  obtain ⟨a₄, hstep', hrest⟩ := run_cons_iff.mp hrest
  obtain ⟨a₅, hys', hrest⟩ := run_append_iff.mp hrest
  obtain ⟨a₆, htick, -⟩ := run_cons_iff.mp hrest
  have h₂ := (h.run hxs).step hstep
  have h₄ := (h₂.run hys).step hstep'
  have h₅ := h₄.run hys'
  -- the first is still on the agenda when the second is set, or it stays off it
  have hboth : Ordered e e' a₄ := by
    cases hstep' with
    | setOneshot hpool hr =>
      rcases Nat.lt_or_ge (ticks ys) r with hlt | hge
      · have hmem := h₂.run_pending hys hstep.mem_setOneshot hcancel.1 hlt
        exact .inl ⟨_, _, (List.singleton_sublist.mpr hmem).append (List.Sublist.refl _)⟩
      · have hgone := h₂.run_over hys hstep.mem_setOneshot hcancel.1 (fun r => (hset r).1) hge
        exact .inr (.inl ((Step.setOneshot hpool hr).notMem hgone fun r'' => Ne.symm (hset r'').2.1))
  have hlast := hboth.run h₄ hys' hcancel.2 hcancel' (fun r => (hset r).2.2) hset'
  cases htick with
  | tick =>
    rw [mem_firedOneshots h₅] at he he'
    rcases hlast with ⟨m, m', hsub⟩ | hgone | hgone
    · obtain rfl := h₅.eq_of_mem he (hsub.subset (List.mem_cons_self ..))
      obtain rfl := h₅.eq_of_mem he'
        (hsub.subset (List.mem_cons_of_mem _ (List.mem_singleton_self _)))
      have hfired := ((hsub.map fun x => (x.1, x.2 - 1)).filter fun x => x.2 = 0).map Prod.fst
      simpa [firedOneshots, countedDown] using hfired
    · exact absurd (List.mem_map_of_mem he) hgone
    · exact absurd (List.mem_map_of_mem he') hgone

/-! ## When periodic events fire -/

omit [DecidableEq E] in
/-- An event with one entry is fired by it alone. -/
theorem mem_firedPeriodics (h : a.Inv) {m : Nat} (he : (e, n, m) ∈ a.periodics) :
    e ∈ a.firedPeriodics ↔ m = 1 := by
  have hpos := (h.periodics_pos _ he).2
  simp only [firedPeriodics, List.mem_map, List.mem_filter, decide_eq_true_eq]
  constructor
  · rintro ⟨x, ⟨hx, hzero⟩, heq⟩
    obtain rfl := List.inj_on_of_nodup_map h.periodic_keys_nodup hx he heq
    simp only at hzero hpos
    omega
  · rintro rfl
    exact ⟨(e, n, 1), ⟨he, rfl⟩, rfl⟩

omit [DecidableEq E] in
theorem firedPeriodics_nodup (h : a.Inv) : a.firedPeriodics.Nodup :=
  h.periodic_keys_nodup.sublist (List.filter_sublist.map Prod.fst)

/-- A periodic event is kept by every step but a tick and its own cancellation. -/
theorem Step.keep_periodic {m : Nat} (hstep : Step a l b) (he : (e, n, m) ∈ a.periodics)
    (hcancel : l ≠ .cancelPeriodic e) (htick : isTick l = false) : (e, n, m) ∈ b.periodics := by
  cases hstep with
  | setPeriodic hpool hn => exact List.mem_append_left _ he
  | @cancelPeriodic e' he' =>
    have hne : e ≠ e' := fun h => hcancel (h ▸ rfl)
    exact List.mem_filter.mpr ⟨he, by simpa using hne⟩
  | tick => exact absurd htick (by simp [isTick])
  | setOneshot | noOneshot | noPeriodic | cancelOneshot | returnOneshot => exact he

/-- The counter of a periodic event after `k` ticks, counted down and reloaded. -/
theorem reload_mod (hn : 0 < n) (k : Nat) :
    (if n - k % n - 1 = 0 then n else n - k % n - 1) = n - (k + 1) % n := by
  have hlt := Nat.mod_lt k hn
  have hmod : (k + 1) % n = (k % n + 1) % n := (Nat.mod_add_mod k n 1).symm
  rcases Nat.lt_or_eq_of_le (Nat.succ_le_of_lt hlt) with hlow | hhigh
  · rw [if_neg (by omega), hmod, Nat.mod_eq_of_lt hlow]
    omega
  · have hzero : (k % n + 1) % n = 0 := by rw [show k % n + 1 = n from hhigh, Nat.mod_self]
    rw [if_pos (by omega), hmod, hzero]
    rfl

/-- Along a run that does not cancel it a periodic event has its interval to go, less the ticks since
its last firing. -/
theorem run_periodic (hrun : Run Step a ls b) (hn : 0 < n) (he : (e, n, n) ∈ a.periodics)
    (hcancel : .cancelPeriodic e ∉ ls) : (e, n, n - ticks ls % n) ∈ b.periodics := by
  induction hrun with
  | nil => simpa [ticks] using he
  | @snoc ls b l b' hrun hstep ih =>
    simp only [List.mem_append, List.mem_singleton, not_or] at hcancel
    have ih := ih hcancel.1
    rw [ticks_snoc]
    cases htick : isTick l with
    | false => exact hstep.keep_periodic ih (Ne.symm hcancel.2) htick
    | true =>
      cases hstep with
      | tick =>
        have hreload := reload_mod hn (ticks ls)
        exact List.mem_map.mpr ⟨_, ih, by rw [hreload]; rfl⟩
      | _ => exact absurd htick (by simp [isTick])

/-- A periodic event fires in every tick whose number since it was set is a multiple of its
interval. -/
theorem periodic_fires (h : a.Inv)
    (hrun : Run Step a (xs ++ .setPeriodic n (some e) :: (ys ++ .tick os ps :: zs)) b)
    (hcancel : .cancelPeriodic e ∉ ys) : ps.Nodup ∧ (e ∈ ps ↔ n ∣ ticks ys + 1) := by
  obtain ⟨a₁, hxs, hrest⟩ := run_append_iff.mp hrun
  obtain ⟨a₂, hset, hrest⟩ := run_cons_iff.mp hrest
  obtain ⟨a₃, hys, hrest⟩ := run_append_iff.mp hrest
  obtain ⟨a₄, htick, -⟩ := run_cons_iff.mp hrest
  have h₃ := ((h.run hxs).step hset).run hys
  have hmem : 0 < n ∧ (e, n, n) ∈ a₂.periodics := by
    cases hset with
    | setPeriodic hpool hn => exact ⟨hn, List.mem_append_right _ (List.mem_singleton_self _)⟩
  have hcounter := run_periodic hys hmem.1 hmem.2 hcancel
  cases htick with
  | tick =>
    refine ⟨firedPeriodics_nodup h₃, ?_⟩
    have hreload := reload_mod hmem.1 (ticks ys)
    have hlt := Nat.mod_lt (ticks ys) hmem.1
    have hlt' := Nat.mod_lt (ticks ys + 1) hmem.1
    rw [mem_firedPeriodics h₃ hcounter, Nat.dvd_iff_mod_eq_zero]
    split at hreload <;> omega

theorem run_periodics_notMem (hrun : Run Step a ls b) (he : e ∉ a.periodics.map Prod.fst)
    (hset : ∀ n, .setPeriodic n (some e) ∉ ls) : e ∉ b.periodics.map Prod.fst := by
  induction hrun with
  | nil => exact he
  | @snoc ls b l b' hrun hstep ih =>
    simp only [List.mem_append, List.mem_singleton, not_or] at hset
    have ih := ih fun n => (hset n).1
    cases hstep with
    | @setPeriodic e' pool n hpool hn =>
      have hne : e ≠ e' := fun h => (hset n).2 (h ▸ rfl)
      simpa [not_or] using ⟨by simpa using ih, hne⟩
    | cancelPeriodic he' => exact fun h => ih ((List.filter_sublist.map Prod.fst).subset h)
    | tick => rwa [tick_periodics_keys]
    | setOneshot | noOneshot | noPeriodic | cancelOneshot | returnOneshot => exact ih

/-- An event that is not a periodic one, at the beginning or because it was cancelled, does not fire
as one until it is set. -/
theorem periodic_silent (hrun : Run Step a (xs ++ (ys ++ .tick os ps :: zs)) b)
    (hxs : xs = [] ∧ a.periodics = [] ∨ ∃ xs', xs = xs' ++ [.cancelPeriodic e])
    (hset : ∀ n, .setPeriodic n (some e) ∉ ys) : e ∉ ps := by
  obtain ⟨a₁, hrun₁, hrest⟩ := run_append_iff.mp hrun
  obtain ⟨a₂, hys, hrest⟩ := run_append_iff.mp hrest
  obtain ⟨a₃, htick, -⟩ := run_cons_iff.mp hrest
  have hstart : e ∉ a₁.periodics.map Prod.fst := by
    rcases hxs with ⟨rfl, hnil⟩ | ⟨xs', rfl⟩
    · obtain rfl := run_nil_iff.mp hrun₁
      simp [hnil]
    · obtain ⟨a₀, -, hstep⟩ := run_snoc_iff.mp hrun₁
      cases hstep with
      | cancelPeriodic he => simp
  have hnone := run_periodics_notMem hys hstart hset
  cases htick with
  | tick => exact fun h => hnone ((List.filter_sublist.map Prod.fst).subset h)

end Agenda
end CyPhOS
