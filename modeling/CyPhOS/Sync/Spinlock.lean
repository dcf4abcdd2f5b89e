import CyPhOS.Lib.Census
import CyPhOS.Lib.Run
import Mathlib.Tactic.FinCases

/-! # The ticket lock

`lock` draws a ticket and waits until `active` shows it; `take_if_free` draws one as well, and gives
it back with a second atomic step if it is not the active one. The tickets are `uint32_t` and wrap,
so all facts about a ticket are stated about its `distance` from `active`.

`Spinlock.Inv` holds in every run: as many tickets are out as `available` is ahead of `active`, and
no more of them lie within a distance than there is room for. Two CPUs therefore never hold the lock
(`Inv.holds_unique`). That the lock is passed on needs more: a ticket that is given back when later
ones have been drawn is never drawn again. `Gapless` says that no waiter waits behind such a ticket,
and `Keeps` when a step leaves it so.
-/

namespace CyPhOS

open Transition Census

namespace Spinlock

/-- Where a CPU is, with the ticket it has drawn. -/
inductive Control
  | outside
  | waiting (myTicket : BitVec 32)
  | trying (myTicket : BitVec 32)
  | refused (myTicket : BitVec 32)
  | holding (myTicket : BitVec 32)
  deriving DecidableEq

/-- The ticket that is out for the CPU. -/
def Control.ticket : Control → Option (BitVec 32)
  | outside => none
  | waiting t | trying t | refused t | holding t => some t

/-- `take_if_free` is in progress. -/
def Control.inTakeIfFree : Control → Bool
  | trying _ | refused _ => true
  | _ => false

structure State (C : Type) where
  available : BitVec 32
  active : BitVec 32
  control : C → Control

def State.initial {C : Type} : State C :=
  { available := 0, active := 0, control := fun _ => .outside }

/-- The atomic steps. `enter` and `taken` are the load of `active` that finds the own ticket. -/
inductive Label (C : Type)
  | lock (cpu : C)
  | enter (cpu : C)
  | unlock (cpu : C)
  | takeIfFree (cpu : C)
  | taken (cpu : C)
  | refused (cpu : C)
  | giveBack (cpu : C)

variable {C : Type} [DecidableEq C]

def State.goto (m : State C) (cpu : C) (control : Control) : State C :=
  { m with control := Function.update m.control cpu control }

@[simp] theorem State.goto_available (m : State C) (cpu : C) (control : Control) :
    (m.goto cpu control).available = m.available := rfl

@[simp] theorem State.goto_active (m : State C) (cpu : C) (control : Control) :
    (m.goto cpu control).active = m.active := rfl

@[simp] theorem State.goto_control (m : State C) (cpu : C) (control : Control) :
    (m.goto cpu control).control = Function.update m.control cpu control := rfl

inductive Step : State C → Label C → State C → Prop
  | lock {m cpu} : m.control cpu = .outside →
    Step m (.lock cpu)
      { m.goto cpu (.waiting m.available) with available := m.available + 1 }
  | enter {m cpu myTicket} : m.control cpu = .waiting myTicket → m.active = myTicket →
    Step m (.enter cpu) (m.goto cpu (.holding myTicket))
  | unlock {m cpu myTicket} : m.control cpu = .holding myTicket →
    Step m (.unlock cpu) { m.goto cpu .outside with active := m.active + 1 }
  | takeIfFree {m cpu} : m.control cpu = .outside →
    Step m (.takeIfFree cpu)
      { m.goto cpu (.trying m.available) with available := m.available + 1 }
  | taken {m cpu myTicket} : m.control cpu = .trying myTicket → m.active = myTicket →
    Step m (.taken cpu) (m.goto cpu (.holding myTicket))
  | refused {m cpu myTicket} : m.control cpu = .trying myTicket → m.active ≠ myTicket →
    Step m (.refused cpu) (m.goto cpu (.refused myTicket))
  | giveBack {m cpu myTicket} : m.control cpu = .refused myTicket →
    Step m (.giveBack cpu) { m.goto cpu .outside with available := m.available - 1 }

/-! ## Tickets -/

/-- How far a ticket is ahead of the active one. -/
def distance (active myTicket : BitVec 32) : Nat := (myTicket - active).toNat

/-- A ticket is out for the CPU. -/
def Control.hasTicket (c : Control) : Bool := c.ticket.isSome

/-- A ticket is out for the CPU at that distance or nearer. -/
def Control.within (active : BitVec 32) (k : Nat) (c : Control) : Bool :=
  c.ticket.any fun t => distance active t ≤ k

theorem distance_self (active : BitVec 32) : distance active active = 0 := by
  simp [distance]

theorem distance_eq_zero {active t : BitVec 32} (h : distance active t = 0) : t = active := by
  rw [distance] at h
  bv_omega

/-- The next ticket is one further ahead. -/
theorem distance_succ {active available : BitVec 32} (h : distance active available + 1 < 2 ^ 32) :
    distance active (available + 1) = distance active available + 1 := by
  rw [distance] at *
  rw [distance]
  bv_omega

theorem distance_pred {active available : BitVec 32} (h : 0 < distance active available) :
    distance active (available - 1) + 1 = distance active available := by
  rw [distance] at *
  rw [distance]
  bv_omega

/-- All tickets but the active one come nearer when the lock is released. -/
theorem distance_release {active t : BitVec 32} (h : 0 < distance active t) :
    distance (active + 1) t + 1 = distance active t := by
  rw [distance] at *
  rw [distance]
  bv_omega

/-! ## Mutual exclusion -/

variable [Fintype C] {m m' : State C} {l : Label C} {cpu other : C} {t t' : BitVec 32}

/-- The invariant of all runs. -/
structure Inv (m : State C) : Prop where
  count : census m.control Control.hasTicket = distance m.active m.available
  room : ∀ k, census m.control (Control.within m.active k) ≤ k + 1
  holding : ∀ cpu myTicket, m.control cpu = .holding myTicket → myTicket = m.active

omit [DecidableEq C] in
theorem Inv.initial : Inv (State.initial : State C) := by
  refine ⟨?_, fun k => ?_, by simp [State.initial]⟩
  · rw [State.initial, census_const rfl, distance_self]
  · rw [State.initial, census_const rfl]
    exact Nat.zero_le _

omit [DecidableEq C] in
theorem Control.within_of_ticket {c : Control} (active : BitVec 32) (k : Nat)
    (h : c.ticket = some t) : c.within active k = decide (distance active t ≤ k) := by
  simp [Control.within, h]

omit [DecidableEq C] in
theorem Control.hasTicket_of_within {c : Control} {active : BitVec 32} {k : Nat}
    (h : c.within active k = true) : c.hasTicket = true := by
  cases hc : c.ticket with
  | none => simp [Control.within, hc] at h
  | some t => simp [Control.hasTicket, hc]

/-- A step of a CPU that keeps its ticket. -/
theorem Inv.keep (h : Inv m) {c : Control} (hticket : c.ticket = (m.control cpu).ticket)
    (hholding : ∀ myTicket, c = .holding myTicket → myTicket = m.active) : Inv (m.goto cpu c) := by
  refine ⟨?_, fun k => ?_, fun i myTicket hi => ?_⟩
  · rw [State.goto_active, State.goto_available, ← h.count]
    exact census_update_of_eq (by rw [Control.hasTicket, hticket, Control.hasTicket])
  · have hsame : census (m.goto cpu c).control (Control.within m.active k) =
        census m.control (Control.within m.active k) :=
      census_update_of_eq (by rw [Control.within, hticket, Control.within])
    exact hsame ▸ h.room k
  · rcases eq_or_ne i cpu with rfl | hne
    · rw [State.goto_control, Function.update_self] at hi
      exact hholding myTicket hi
    · rw [State.goto_control, Function.update_of_ne hne] at hi
      exact h.holding i myTicket hi

/-- A step of a CPU that draws a ticket. -/
theorem Inv.draw (hcard : Fintype.card C < 2 ^ 32) (h : Inv m) {c : Control}
    (hcontrol : m.control cpu = .outside) (hticket : c.ticket = some m.available)
    (hholding : ∀ myTicket, c ≠ .holding myTicket) :
    Inv { m.goto cpu c with available := m.available + 1 } := by
  have hnone : (m.control cpu).hasTicket = false := by rw [hcontrol]; rfl
  have hlt := census_lt_card hnone
  have hcount : census (Function.update m.control cpu c) Control.hasTicket =
      census m.control Control.hasTicket + 1 :=
    census_update_enter hnone (by rw [Control.hasTicket, hticket]; rfl)
  refine ⟨?_, fun k => ?_, fun i myTicket hi => ?_⟩
  · rw [h.count] at hcount hlt
    exact hcount.trans (distance_succ (by omega)).symm
  · rcases Nat.lt_or_ge k (distance m.active m.available) with hk | hk
    · -- the new ticket is too far ahead to be counted
      have hsame : census (Function.update m.control cpu c) (Control.within m.active k) =
          census m.control (Control.within m.active k) := by
        refine census_update_of_eq ?_
        rw [Control.within_of_ticket _ _ hticket, hcontrol]
        simpa [Control.within, Control.ticket] using hk
      exact hsame ▸ h.room k
    · calc census (Function.update m.control cpu c) (Control.within m.active k)
          ≤ census (Function.update m.control cpu c) Control.hasTicket :=
            census_mono fun i hi => Control.hasTicket_of_within hi
        _ ≤ k + 1 := by
            rw [hcount, h.count]
            omega
  · rcases eq_or_ne i cpu with rfl | hne
    · simp only [State.goto_control, Function.update_self] at hi
      exact absurd hi (hholding myTicket)
    · simp only [State.goto_control, Function.update_of_ne hne] at hi
      exact h.holding i myTicket hi

/-- One ticket less is out when a CPU leaves with its ticket. -/
theorem Inv.census_leave (h : Inv m) (hsome : (m.control cpu).hasTicket = true) :
    census (Function.update m.control cpu .outside) Control.hasTicket + 1 =
      distance m.active m.available := by
  rw [census_update_leave hsome rfl, h.count]

/-- A CPU that leaves with its ticket. -/
theorem Inv.giveBack (h : Inv m) (hcontrol : m.control cpu = .refused t) :
    Inv { m.goto cpu .outside with available := m.available - 1 } := by
  have hcount := h.census_leave (by rw [hcontrol]; rfl)
  refine ⟨?_, fun k => ?_, fun i myTicket hi => ?_⟩
  · have hpred : distance m.active (m.available - 1) + 1 = _ := distance_pred (by omega)
    rw [← hpred] at hcount
    exact Nat.succ.inj hcount
  · have hupdate := census_update m.control cpu .outside (Control.within m.active k)
    have hroom := h.room k
    have hle : census (Function.update m.control cpu .outside) (Control.within m.active k) ≤
        census m.control (Control.within m.active k) := by
      simp only [Control.within, Control.ticket, Option.any_none, Bool.toNat_false] at hupdate ⊢
      omega
    exact hle.trans hroom
  · rcases eq_or_ne i cpu with rfl | hne
    · simp at hi
    · simp only [State.goto_control, Function.update_of_ne hne] at hi
      exact h.holding i myTicket hi

omit [DecidableEq C] in
/-- There is room for one ticket that is active. -/
theorem Inv.eq_of_active [DecidableEq C] (h : Inv m) (hi : (m.control cpu).ticket = some m.active)
    (hj : (m.control other).ticket = some m.active) : cpu = other := by
  have hwithin : ∀ i, (m.control i).ticket = some m.active →
      (m.control i).within m.active 0 = true := by
    intro i hi
    rw [Control.within_of_ticket _ _ hi, distance_self]
    rfl
  exact eq_of_census_le_one (h.room 0) (hwithin cpu hi) (hwithin other hj)

/-- Only one CPU holds the lock. -/
theorem Inv.holds_unique (h : Inv m) (hi : m.control cpu = .holding t)
    (hj : m.control other = .holding t') : cpu = other := by
  refine h.eq_of_active ?_ ?_
  · rw [hi, h.holding cpu t hi]
    rfl
  · rw [hj, h.holding other t' hj]
    rfl

/-- While a CPU holds the lock every other ticket is ahead. -/
theorem Inv.distance_pos (h : Inv m) (hcontrol : m.control cpu = .holding t) (hne : other ≠ cpu)
    (hother : (m.control other).ticket = some t') : 0 < distance m.active t' := by
  rw [Nat.pos_iff_ne_zero]
  intro hzero
  rw [distance_eq_zero hzero] at hother
  refine hne (h.eq_of_active hother ?_)
  rw [hcontrol, h.holding cpu t hcontrol]
  rfl

theorem Inv.unlock (h : Inv m) (hcontrol : m.control cpu = .holding t) :
    Inv { m.goto cpu .outside with active := m.active + 1 } := by
  have hcount := h.census_leave (by rw [hcontrol]; rfl)
  refine ⟨?_, fun k => ?_, fun i myTicket hi => ?_⟩
  · have hrelease : distance (m.active + 1) m.available + 1 = _ := distance_release (by omega)
    rw [← hrelease] at hcount
    exact Nat.succ.inj hcount
  · -- a ticket within `k` of the next active one is within `k + 1` of this one
    have hshift : census (Function.update m.control cpu .outside)
        (Control.within (m.active + 1) k) =
        census (Function.update m.control cpu .outside) (Control.within m.active (k + 1)) := by
      refine census_congr fun i => ?_
      rcases eq_or_ne i cpu with rfl | hne
      · simp [Control.within, Control.ticket]
      · rw [Function.update_of_ne hne]
        cases hi : (m.control i).ticket with
        | none => simp [Control.within, hi]
        | some t' =>
          have hrelease := distance_release (h.distance_pos hcontrol hne hi)
          rw [Control.within_of_ticket _ _ hi, Control.within_of_ticket _ _ hi]
          exact decide_eq_decide.mpr (by omega)
    have hleave : census (Function.update m.control cpu .outside)
        (Control.within m.active (k + 1)) + 1 = census m.control (Control.within m.active (k + 1)) := by
      refine census_update_leave ?_ rfl
      rw [hcontrol, h.holding cpu t hcontrol, Control.within_of_ticket _ _ rfl, distance_self]
      simp
    have hroom := h.room (k + 1)
    simp only [State.goto_control]
    omega
  · rcases eq_or_ne i cpu with rfl | hne
    · simp at hi
    · simp only [State.goto_control, Function.update_of_ne hne] at hi
      exact absurd (h.holds_unique hi hcontrol) hne

theorem Inv.step (hcard : Fintype.card C < 2 ^ 32) (h : Inv m) (hstep : Step m l m') : Inv m' := by
  cases hstep with
  | lock hcontrol => exact h.draw hcard hcontrol rfl (by simp)
  | takeIfFree hcontrol => exact h.draw hcard hcontrol rfl (by simp)
  | enter hcontrol hactive =>
    exact h.keep (by rw [hcontrol]; rfl) fun _ heq => (Control.holding.inj heq) ▸ hactive.symm
  | taken hcontrol hactive =>
    exact h.keep (by rw [hcontrol]; rfl) fun _ heq => (Control.holding.inj heq) ▸ hactive.symm
  | refused hcontrol _ => exact h.keep (by rw [hcontrol]; rfl) (by simp)
  | giveBack hcontrol => exact h.giveBack hcontrol
  | unlock hcontrol => exact h.unlock hcontrol

/-! ## Passing the lock on -/

/-- The ticket at that distance is out for some CPU. -/
def Drawn (m : State C) (k : Nat) : Prop :=
  ∃ cpu myTicket, (m.control cpu).ticket = some myTicket ∧ distance m.active myTicket = k

/-- All tickets in front of one that is waited with are out. -/
def Gapless (m : State C) : Prop :=
  ∀ cpu myTicket, m.control cpu = .waiting myTicket → ∀ k < distance m.active myTicket, Drawn m k

/-- The step leaves no gap in front of a waiter: `lock` draws its ticket when all tickets before it
are out, and `take_if_free` gives its ticket back when no CPU waits with a later one. -/
def Keeps (m : State C) : Label C → Prop
  | .lock _ => ∀ k < distance m.active m.available, Drawn m k
  | .giveBack cpu => ∀ myTicket, m.control cpu = .refused myTicket → ∀ other theirs,
    m.control other = .waiting theirs → distance m.active theirs ≤ distance m.active myTicket
  | _ => True

/-- A step that leaves no gap. -/
def KeepingStep (m : State C) (l : Label C) (m' : State C) : Prop :=
  Step m l m' ∧ Keeps m l

omit [Fintype C] in
/-- Tickets stay out when a CPU only changes what it does with its ticket, or draws one. -/
theorem Drawn.goto {k : Nat} {c : Control} (h : Drawn m k)
    (hticket : ∀ myTicket, (m.control cpu).ticket = some myTicket → c.ticket = some myTicket)
    (hm' : m'.active = m.active ∧ m'.control = Function.update m.control cpu c) : Drawn m' k := by
  obtain ⟨i, myTicket, hi, hk⟩ := h
  refine ⟨i, myTicket, ?_, hm'.1 ▸ hk⟩
  rw [hm'.2]
  rcases eq_or_ne i cpu with rfl | hne
  · rw [Function.update_self]
    exact hticket myTicket hi
  · rwa [Function.update_of_ne hne]

omit [Fintype C] in
/-- A step that takes no ticket back, and lets no CPU wait that has not waited before. -/
theorem Gapless.goto {c : Control} (h : Gapless m)
    (hticket : ∀ myTicket, (m.control cpu).ticket = some myTicket → c.ticket = some myTicket)
    (hm' : m'.active = m.active ∧ m'.control = Function.update m.control cpu c)
    (hwaiting : ∀ myTicket, c = .waiting myTicket →
      ∀ k < distance m.active myTicket, Drawn m k) : Gapless m' := by
  intro i myTicket hi k hk
  rw [hm'.1] at hk
  rw [hm'.2] at hi
  have hdrawn : Drawn m k := by
    rcases eq_or_ne i cpu with rfl | hne
    · rw [Function.update_self] at hi
      exact hwaiting myTicket hi k hk
    · rw [Function.update_of_ne hne] at hi
      exact h i myTicket hi k hk
  exact hdrawn.goto hticket hm'

theorem Gapless.step (hinv : Inv m) (h : Gapless m) (hstep : KeepingStep m l m') : Gapless m' := by
  obtain ⟨hstep, hkeeps⟩ := hstep
  cases hstep with
  | lock hcontrol =>
    refine h.goto (by simp [hcontrol, Control.ticket]) ⟨rfl, rfl⟩ fun myTicket heq => ?_
    cases heq
    exact hkeeps
  | takeIfFree hcontrol =>
    exact h.goto (by simp [hcontrol, Control.ticket]) ⟨rfl, rfl⟩ (by simp)
  | enter hcontrol _ => exact h.goto (by simp [hcontrol, Control.ticket]) ⟨rfl, rfl⟩ (by simp)
  | taken hcontrol _ => exact h.goto (by simp [hcontrol, Control.ticket]) ⟨rfl, rfl⟩ (by simp)
  | refused hcontrol _ => exact h.goto (by simp [hcontrol, Control.ticket]) ⟨rfl, rfl⟩ (by simp)
  | @giveBack cpu t hcontrol =>
    intro i myTicket hi k hk
    have hne : i ≠ cpu := by
      rintro rfl
      simp at hi
    simp only [State.goto_control, Function.update_of_ne hne] at hi
    have hk : k < distance m.active myTicket := hk
    obtain ⟨j, theirs, hj, hdist⟩ := h i myTicket hi k hk
    have hle := hkeeps t hcontrol i myTicket hi
    have hjne : j ≠ cpu := by
      rintro rfl
      rw [hcontrol] at hj
      cases hj
      omega
    refine ⟨j, theirs, ?_, hdist⟩
    simpa only [State.goto_control, Function.update_of_ne hjne] using hj
  | @unlock cpu t hcontrol =>
    intro i myTicket hi k hk
    have hne : i ≠ cpu := by
      rintro rfl
      simp at hi
    simp only [State.goto_control, Function.update_of_ne hne] at hi
    have hpos := hinv.distance_pos hcontrol hne (by rw [hi]; rfl)
    have hrelease := distance_release hpos
    have hk : k < distance (m.active + 1) myTicket := hk
    obtain ⟨j, theirs, hj, hdist⟩ := h i myTicket hi (k + 1) (by omega)
    have hjne : j ≠ cpu := by
      rintro rfl
      rw [hcontrol, hinv.holding j t hcontrol] at hj
      cases hj
      rw [distance_self] at hdist
      omega
    have hrelease' := distance_release (hinv.distance_pos hcontrol hjne hj)
    refine ⟨j, theirs, ?_, ?_⟩
    · simpa only [State.goto_control, Function.update_of_ne hjne] using hj
    · have hgoal : distance (m.active + 1) theirs = k := by omega
      exact hgoal

omit [DecidableEq C] [Fintype C] in
/-- Without a gap the CPU at the front can go on. -/
theorem Gapless.exists_waiting (h : Gapless m) (hfree : ∀ cpu myTicket,
      m.control cpu ≠ .holding myTicket) (htry : ∀ cpu, (m.control cpu).inTakeIfFree = false)
    (hwaiting : m.control cpu = .waiting t) : ∃ i, m.control i = .waiting m.active := by
  rcases Nat.eq_zero_or_pos (distance m.active t) with hzero | hpos
  · exact ⟨cpu, distance_eq_zero hzero ▸ hwaiting⟩
  · obtain ⟨i, myTicket, hi, hdist⟩ := h cpu t hwaiting 0 hpos
    refine ⟨i, ?_⟩
    have htry := htry i
    have hfree := hfree i myTicket
    rw [← distance_eq_zero hdist]
    cases hcontrol : m.control i with
    | outside => simp [hcontrol, Control.ticket] at hi
    | waiting t => simpa [hcontrol, Control.ticket] using hi
    | trying t => simp [hcontrol, Control.inTakeIfFree] at htry
    | refused t => simp [hcontrol, Control.inTakeIfFree] at htry
    | holding t =>
      rw [hcontrol] at hi hfree
      cases hi
      exact absurd rfl hfree

/-- Two CPUs never hold the lock. In a run whose steps leave no gap, a lock that is free is passed
on: of the CPUs that wait exactly one has the active ticket. -/
theorem ticketLock (hcard : Fintype.card C < 2 ^ 32) :
    (∀ ls (m : State C), Run Step .initial ls m → ∀ cpu other t t',
      m.control cpu = .holding t → m.control other = .holding t' → cpu = other) ∧
    ∀ ls (m : State C), Run KeepingStep .initial ls m →
      (∀ cpu t, m.control cpu ≠ .holding t) → (∀ cpu, (m.control cpu).inTakeIfFree = false) →
      (∃ cpu t, m.control cpu = .waiting t) → ∃! cpu, m.control cpu = .waiting m.active := by
  have hinv : ∀ ls (m : State C), Run Step .initial ls m → Inv m :=
    fun ls m hrun => hrun.invariant Inv.initial fun h hstep => h.step hcard hstep
  refine ⟨fun ls m hrun cpu other t t' hi hj => (hinv ls m hrun).holds_unique hi hj, ?_⟩
  intro ls m hrun hfree htry ⟨cpu, t, hwaiting⟩
  have hboth : Inv m ∧ Gapless m := by
    refine hrun.invariant (motive := fun m => Inv m ∧ Gapless m) ⟨.initial, ?_⟩ ?_
    · intro cpu myTicket hi
      simp [State.initial] at hi
    · intro m l m' ⟨h, hgap⟩ hstep
      exact ⟨h.step hcard hstep.1, hgap.step h hstep⟩
  obtain ⟨i, hi⟩ := hboth.2.exists_waiting hfree htry hwaiting
  refine ⟨i, hi, fun j hj => ?_⟩
  refine hboth.1.eq_of_active ?_ ?_
  · rw [show m.control j = _ from hj]
    rfl
  · rw [hi]
    rfl

/-- CPU 1 waits while CPU 0 holds the lock, and is the only one to go on when it is released. -/
theorem ticketLock_two : ∃ m : State (Fin 2), ∃ ls, Run KeepingStep .initial ls m ∧
    ∃! cpu, m.control cpu = .waiting m.active := by
  have hrun₁ : Run KeepingStep (.initial : State (Fin 2)) [.lock 0] _ :=
    .single ⟨.lock rfl, fun k hk => absurd hk (Nat.not_lt_zero k)⟩
  have hrun₂ := hrun₁.snoc (l := Label.enter 0) ⟨.enter rfl rfl, trivial⟩
  have hrun₃ := hrun₂.snoc (l := Label.lock 1)
    ⟨.lock rfl, fun k hk => ⟨0, 0, rfl, (Nat.lt_one_iff.mp hk).symm⟩⟩
  have hrun₄ := hrun₃.snoc (l := Label.unlock 0) ⟨.unlock rfl, trivial⟩
  refine ⟨_, _, hrun₄, (ticketLock (by decide)).2 _ _ hrun₄ ?_ ?_ ⟨1, 1, rfl⟩⟩
  · intro cpu t
    fin_cases cpu <;> simp [State.goto]
  · decide

/-- A ticket is given back while a CPU waits with a later one. The lock is never passed on. -/
theorem takeIfFree_strands_waiter : ¬ ∀ ls (m : State (Fin 3)), Run Step .initial ls m →
    (∀ cpu t, m.control cpu ≠ .holding t) → (∀ cpu, (m.control cpu).inTakeIfFree = false) →
    (∃ cpu t, m.control cpu = .waiting t) → ∃! cpu, m.control cpu = .waiting m.active := by
  intro h
  have hrun₁ : Run Step (.initial : State (Fin 3)) [.lock 0] _ := .single (.lock rfl)
  have hrun₂ := hrun₁.snoc (l := .enter 0) (.enter rfl rfl)
  have hrun₃ := hrun₂.snoc (l := .takeIfFree 1) (.takeIfFree rfl)
  have hrun₄ := hrun₃.snoc (l := .refused 1) (.refused rfl (by decide))
  have hrun₅ := hrun₄.snoc (l := .lock 2) (.lock rfl)
  have hrun₆ := hrun₅.snoc (l := .giveBack 1) (.giveBack rfl)
  have hrun₇ := hrun₆.snoc (l := .unlock 0) (.unlock rfl)
  obtain ⟨cpu, hcpu, -⟩ := h _ _ hrun₇ (by intro cpu t; fin_cases cpu <;> simp [State.goto])
    (by decide) ⟨2, 2, rfl⟩
  revert hcpu
  revert cpu
  decide

end Spinlock
end CyPhOS
