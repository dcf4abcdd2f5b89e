import Mathlib.Algebra.GroupWithZero.Nat
import CyPhOS.Sync.BarrierClients

/-! # The way profiling

CPU 0 measures how long accesses to the range of a way take, evicts the range and loads it again,
while the other CPUs load the ranges of other ways. After each round all meet in the barrier and go on
to the next way. CPUs that work are in the same round and have different ways (`ways_of_run`). The
addresses of their accesses are not modelled: an access of eight bytes at one of the last seven
addresses of a range reaches into the next one.
-/

namespace CyPhOS

open Transition

namespace CATTest

def WAY_COUNT : Nat := 18

/-- Where a CPU is: CPU 0 first loads and measures all ways. -/
inductive Place
  | starts (initWay : Nat)
  | first
  | works
  | awaits
  | restarts

structure State where
  barrier : Barrier.State (Fin 4)
  place : Fin 4 → Place
  way : Fin 4 → Nat
  localCount : Nat

inductive Label
  | warmedUp
  | await (l : Barrier.Label (Fin 4))

def State.initial : State where
  barrier := .initial
  place cpu := if cpu.val = 0 then .starts 0 else .first
  way cpu := cpu
  localCount := 0

/-- The way with whose number the CPU works: it loads, measures or evicts this way. -/
def State.uses (m : State) (cpu : Fin 4) : Option Nat :=
  match m.place cpu with
  | .starts initWay => some initWay
  | .works => some (m.way cpu)
  | _ => none

inductive Step : State → Label → State → Prop
  | warmedUp {m cpu initWay} (hplace : m.place cpu = .starts initWay) :
      Step m .warmedUp
        { m with
          place := Function.update m.place cpu
            (if initWay + 1 < WAY_COUNT then .starts (initWay + 1) else .first) }
  | callFirst {m b cpu} (hplace : m.place cpu = .first)
      (hstep : Barrier.Step m.barrier (.call cpu) b) :
      Step m (.await (.call cpu)) { m with barrier := b }
  | call {m b cpu} (hplace : m.place cpu = .works)
      (hstep : Barrier.Step m.barrier (.call cpu) b) :
      Step m (.await (.call cpu))
        { m with barrier := b, place := Function.update m.place cpu .awaits }
  | inside {m b l} (hinside : ∀ cpu, l ≠ .call cpu ∧ l ≠ .returns cpu)
      (hstep : Barrier.Step m.barrier l b) : Step m (.await l) { m with barrier := b }
  | returnsFirst {m b cpu} (hplace : m.place cpu = .first)
      (hstep : Barrier.Step m.barrier (.returns cpu) b) :
      Step m (.await (.returns cpu))
        { m with barrier := b, place := Function.update m.place cpu .works }
  | returns {m b cpu} (hplace : m.place cpu = .awaits)
      (hstep : Barrier.Step m.barrier (.returns cpu) b) :
      Step m (.await (.returns cpu))
        { m with
          barrier := b
          place := Function.update m.place cpu
            (if cpu.val = 0 ∧ m.localCount + 1 = 1000 then .restarts else .works)
          way := Function.update m.way cpu ((m.way cpu + 1) % WAY_COUNT)
          localCount := if cpu.val = 0 then m.localCount + 1 else m.localCount }

/-- Where a CPU is that has called `await` so often. -/
def Agrees (cpu : Fin 4) (way : Nat) : Place → Nat → Bool → Prop
  | .starts _, calls, inAwait => inAwait = false ∧ calls = 0 ∧ way = cpu ∧ cpu.val = 0
  | .first, calls, inAwait => calls = inAwait.toNat ∧ way = cpu
  | .works, calls, inAwait => inAwait = false ∧ 0 < calls ∧ way = (cpu + (calls - 1)) % WAY_COUNT
  | .awaits, calls, inAwait => inAwait = true ∧ 1 < calls ∧ way = (cpu + (calls - 2)) % WAY_COUNT
  | .restarts, calls, inAwait => inAwait = false ∧ 0 < calls

/-- The CPUs are where their calls of `await` have brought them. -/
def Inv (m : State) : Prop :=
  Barrier.Clients (fun cpu => Agrees cpu (m.way cpu) (m.place cpu)) m.barrier

variable {m m' : State} {l : Label} {ls : List Label} {cpu other : Fin 4}

theorem Inv.initial : Inv .initial := by
  refine Barrier.Clients.initial fun cpu => ?_
  simp only [State.initial]
  split
  · next hzero => exact ⟨rfl, rfl, rfl, hzero⟩
  · exact ⟨rfl, rfl⟩

theorem Inv.step (h : Inv m) (hstep : Step m l m') : Inv m' := by
  cases hstep with
  | @warmedUp cpu initWay hplace =>
    refine h.mono fun i hagrees => ?_
    rcases eq_or_ne i cpu with rfl | hne
    · rw [hplace] at hagrees
      obtain ⟨hinAwait, hcalls, hway, hzero⟩ := hagrees
      simp only [Function.update_self, hinAwait]
      split
      · exact ⟨rfl, hcalls, hway, hzero⟩
      · exact ⟨hcalls, hway⟩
    · simpa only [Function.update_of_ne hne] using hagrees
  | @callFirst b cpu hplace hb =>
    refine h.call hb (fun _ _ _ _ hagrees => hagrees) fun calls hagrees => ?_
    rw [hplace] at hagrees ⊢
    exact ⟨congrArg (· + 1) hagrees.1, hagrees.2⟩
  | @call b cpu hplace hb =>
    refine h.call hb (fun i hne _ _ hagrees => ?_) fun calls hagrees => ?_
    · simpa only [Function.update_of_ne hne] using hagrees
    · rw [hplace] at hagrees
      simp only [Function.update_self]
      exact ⟨rfl, Nat.succ_lt_succ hagrees.2.1, hagrees.2.2⟩
  | inside hinside hb => exact Barrier.Clients.inside h hb hinside
  | @returnsFirst b cpu hplace hb =>
    refine h.returns hb (fun i hne _ _ hagrees => ?_) fun calls hagrees => ?_
    · simpa only [Function.update_of_ne hne] using hagrees
    · rw [hplace] at hagrees
      obtain ⟨rfl, hway⟩ := hagrees
      simp only [Function.update_self]
      refine ⟨rfl, Nat.one_pos, ?_⟩
      rw [hway]
      exact (Nat.mod_eq_of_lt (by rw [WAY_COUNT]; omega)).symm
  | @returns b cpu hplace hb =>
    refine h.returns hb (fun i hne _ _ hagrees => ?_) fun calls hagrees => ?_
    · simpa only [Function.update_of_ne hne] using hagrees
    · rw [hplace] at hagrees
      obtain ⟨-, hpos, hway⟩ := hagrees
      simp only [Function.update_self]
      split
      · exact ⟨rfl, by omega⟩
      · refine ⟨rfl, by omega, ?_⟩
        rw [hway, WAY_COUNT]
        omega

theorem Inv.uses (h : Inv m) {way : Nat} (huses : m.uses cpu = some way) :
    m.barrier.control cpu = .outside ∧
      (m.barrier.calls cpu = 0 ∧ cpu.val = 0 ∨
        0 < m.barrier.calls cpu ∧ way = (cpu + (m.barrier.calls cpu - 1)) % WAY_COUNT) := by
  have hagrees := h.agrees cpu
  unfold State.uses at huses
  split at huses
  next initWay hplace =>
    rw [hplace] at hagrees
    obtain ⟨hinAwait, hcalls, -, hzero⟩ := hagrees
    exact ⟨Barrier.Control.inAwait_eq_false.mp hinAwait, .inl ⟨hcalls, hzero⟩⟩
  next hplace =>
    cases huses
    rw [hplace] at hagrees
    exact ⟨Barrier.Control.inAwait_eq_false.mp hagrees.1, .inr hagrees.2⟩
  next => cases huses

/-- CPUs that work are in the same round, and have different ways. -/
theorem Inv.ways_differ (h : Inv m) {way way' : Nat} (hne : cpu ≠ other)
    (hcpu : m.uses cpu = some way) (hother : m.uses other = some way') :
    m.barrier.calls cpu = m.barrier.calls other ∧ way ≠ way' := by
  obtain ⟨lbs, hrun⟩ := h.reachable
  obtain ⟨hcontrol, hround⟩ := h.uses hcpu
  obtain ⟨hcontrol', hround'⟩ := h.uses hother
  have hsame := (Barrier.calls_of_outside hrun hcontrol other).2.2 hcontrol'
  refine ⟨hsame.symm, ?_⟩
  rw [hsame] at hround'
  have hval : cpu.val ≠ other.val := Fin.val_ne_of_ne hne
  rcases hround with ⟨hzero, hval₁⟩ | ⟨hpos, rfl⟩ <;>
    rcases hround' with ⟨hzero', hval₂⟩ | ⟨hpos', rfl⟩
  · omega
  · omega
  · omega
  · rw [WAY_COUNT]
    omega

/-- In every reachable state, two CPUs that work are in the same round and have different ways, also
while CPU 0 loads and measures all ways at its start. -/
theorem ways_of_run (hrun : Run Step .initial ls m) {way way' : Nat} (hne : cpu ≠ other)
    (hcpu : m.uses cpu = some way) (hother : m.uses other = some way') :
    m.barrier.calls cpu = m.barrier.calls other ∧ way ≠ way' :=
  (hrun.invariant (motive := Inv) .initial fun h hstep => h.step hstep).ways_differ hne hcpu hother

/-- What a label does to a state, if it can. -/
def State.after (m : State) : Label → Option State
  | .warmedUp =>
    (List.finRange 4).findSome? fun cpu =>
      match m.place cpu with
      | .starts initWay => some
          { m with
            place := Function.update m.place cpu
              (if initWay + 1 < WAY_COUNT then .starts (initWay + 1) else .first) }
      | _ => none
  | .await (.call cpu) =>
    match m.place cpu with
    | .first => (m.barrier.after (.call cpu)).map fun b => { m with barrier := b }
    | .works => (m.barrier.after (.call cpu)).map fun b =>
        { m with barrier := b, place := Function.update m.place cpu .awaits }
    | _ => none
  | .await (.returns cpu) =>
    match m.place cpu with
    | .first => (m.barrier.after (.returns cpu)).map fun b =>
        { m with barrier := b, place := Function.update m.place cpu .works }
    | .awaits => (m.barrier.after (.returns cpu)).map fun b =>
        { m with
          barrier := b
          place := Function.update m.place cpu
            (if cpu.val = 0 ∧ m.localCount + 1 = 1000 then .restarts else .works)
          way := Function.update m.way cpu ((m.way cpu + 1) % WAY_COUNT)
          localCount := if cpu.val = 0 then m.localCount + 1 else m.localCount }
    | _ => none
  | .await l => (m.barrier.after l).map fun b => { m with barrier := b }

theorem Step.of_after (h : m.after l = some m') : Step m l m' := by
  unfold State.after at h
  split at h
  case h_1 =>
    obtain ⟨cpu, -, hcpu⟩ := List.exists_of_findSome?_eq_some h
    split at hcpu
    next hplace =>
      cases hcpu
      exact .warmedUp hplace
    next => cases hcpu
  case h_2 cpu =>
    split at h
    next hplace =>
      obtain ⟨b, hb, rfl⟩ := Option.map_eq_some_iff.mp h
      exact .callFirst hplace (.of_after hb)
    next hplace =>
      obtain ⟨b, hb, rfl⟩ := Option.map_eq_some_iff.mp h
      exact .call hplace (.of_after hb)
    next => cases h
  case h_3 cpu =>
    split at h
    next hplace =>
      obtain ⟨b, hb, rfl⟩ := Option.map_eq_some_iff.mp h
      exact .returnsFirst hplace (.of_after hb)
    next hplace =>
      obtain ⟨b, hb, rfl⟩ := Option.map_eq_some_iff.mp h
      exact .returns hplace (.of_after hb)
    next => cases h
  case h_4 lb hcall hreturns =>
    obtain ⟨b, hb, rfl⟩ := Option.map_eq_some_iff.mp h
    exact .inside (fun cpu => ⟨hcall cpu, hreturns cpu⟩) (.of_after hb)

open Barrier in
/-- CPU 0 has loaded all ways, and the first round begins. -/
theorem ways_of_run_firstRound : ∃ ls m, Run Step .initial ls m ∧ m.uses 0 = some 0 ∧
    m.uses 1 = some 1 ∧ m.barrier.calls 0 = m.barrier.calls 1 ∧ 0 ≠ 1 := by
  let calls : List (Barrier.Label (Fin 4)) :=
    arriving 0 ++ arriving 1 ++ arriving 2 ++ arrivingLast 3 ++ leaving 0 ++ leaving 1
  let firstRound : List Label := List.replicate WAY_COUNT .warmedUp ++ calls.map .await
  have hafter : (firstRound.foldlM State.after State.initial).any fun m =>
      m.uses 0 = some 0 ∧ m.uses 1 = some 1 := by
    decide +kernel
  obtain ⟨m, hm, huses⟩ := (Option.any_eq_true _ _).mp hafter
  obtain ⟨hzero, hone⟩ := of_decide_eq_true huses
  have hrun := Run.of_foldlM Step.of_after hm
  exact ⟨_, m, hrun, hzero, hone, ways_of_run hrun (by decide) hzero hone⟩

end CATTest
end CyPhOS
