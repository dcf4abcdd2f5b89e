import Mathlib.Algebra.GroupWithZero.Nat
import CyPhOS.Sync.BarrierClients

/-! # The barrier test

Four CPUs run `printText`, each with its number: four times in turn they call `await`, and after the
`k`-th call CPU `k` prints its text. The steps of the four inside `await` interleave as those of the
barrier do. The barrier keeps the comparisons that the CPUs have made in step (`calls_of_outside`), so
that the texts come out in turn (`texts_in_turn`).
-/

namespace CyPhOS

open Transition

namespace SpinlockTest

/-- Where a CPU is in the loop of `printText`: it is in the call of `await` with this number or before
it, or at the comparison of its index with this number. -/
inductive Place
  | await (k : Nat)
  | compare (k : Nat)

structure State where
  barrier : Barrier.State (Fin 4)
  place : Fin 4 → Place
  printed : List Nat

inductive Label
  | await (l : Barrier.Label (Fin 4))
  | compare (index : Fin 4)

def State.initial : State :=
  { barrier := .initial, place := fun _ => .await 0, printed := [] }

inductive Step : State → Label → State → Prop
  | call {m b index k} (hplace : m.place index = .await k)
      (hstep : Barrier.Step m.barrier (.call index) b) :
      Step m (.await (.call index)) { m with barrier := b }
  | inside {m b l} (hinside : ∀ index, l ≠ .call index ∧ l ≠ .returns index)
      (hstep : Barrier.Step m.barrier l b) : Step m (.await l) { m with barrier := b }
  | returns {m b index k} (hplace : m.place index = .await k)
      (hstep : Barrier.Step m.barrier (.returns index) b) :
      Step m (.await (.returns index))
        { m with barrier := b, place := Function.update m.place index (.compare k) }
  | compare {m index k} (hplace : m.place index = .compare k) :
      Step m (.compare index)
        { m with
          place := Function.update m.place index (.await ((k + 1) % 4))
          printed := if index = k then m.printed ++ [k] else m.printed }

/-- Where a CPU is that has made so many comparisons, and how often it has called `await`. -/
def Agrees (passed : Nat) : Place → Nat → Bool → Prop
  | .await k, calls, inAwait => k = passed % 4 ∧ calls = passed + inAwait.toNat
  | .compare k, calls, inAwait => k = passed % 4 ∧ calls = passed + 1 ∧ inAwait = false

structure Inv (m : State) (passed : Fin 4 → Nat) : Prop where
  clients : Barrier.Clients (fun index => Agrees (passed index) (m.place index)) m.barrier
  printed : m.printed = (List.range m.printed.length).map (· % 4)
  done : ∀ p < m.printed.length, ∀ index : Fin 4, index = p % 4 → p < passed index
  next : ∀ index : Fin 4, index = m.printed.length % 4 → passed index ≤ m.printed.length

variable {m m' : State} {l : Label} {ls : List Label} {passed : Fin 4 → Nat} {index : Fin 4}

theorem Agrees.calls_le {calls passed : Nat} {place : Place} {inAwait : Bool}
    (h : Agrees passed place calls inAwait) : passed ≤ calls ∧ calls ≤ passed + 1 ∧
      (calls = passed → inAwait = false) := by
  cases place with
  | await k =>
    obtain ⟨-, rfl⟩ := h
    cases inAwait <;> simp
  | compare k => exact ⟨h.2.1.ge.trans' (Nat.le_succ _), h.2.1.le, fun _ => h.2.2⟩

theorem Inv.initial : Inv .initial fun _ => 0 where
  clients := .initial fun _ => ⟨rfl, rfl⟩
  printed := rfl
  done := by simp [State.initial]
  next := by simp [State.initial]

theorem Inv.compare (h : Inv m passed) {k : Nat} (hplace : m.place index = .compare k) :
    Inv { m with
          place := Function.update m.place index (.await ((k + 1) % 4))
          printed := if index = k then m.printed ++ [k] else m.printed }
      (Function.update passed index (passed index + 1)) := by
  obtain ⟨lbs, hrun⟩ := h.clients.reachable
  obtain ⟨hk, hcalls, hinAwait⟩ : Agrees (passed index) (.compare k) _ _ :=
    hplace ▸ h.clients.agrees index
  have hcontrol := Barrier.Control.inAwait_eq_false.mp hinAwait
  have hphase := Barrier.calls_of_outside hrun hcontrol
  -- nobody has made more than one comparison more
  have hahead : ∀ i, passed i ≤ passed index + 1 := by
    intro i
    obtain ⟨hle, -, hout⟩ := (h.clients.agrees i).calls_le
    obtain ⟨-, hup, hsame⟩ := hphase i
    by_contra hgt
    have hcalls' : m.barrier.calls i = passed i := by omega
    have := hsame (Barrier.Control.inAwait_eq_false.mp (hout hcalls'))
    omega
  have hmono : ∀ i, passed i ≤ Function.update passed index (passed index + 1) i := by
    intro i
    rcases eq_or_ne i index with rfl | hne
    · simp
    · rw [Function.update_of_ne hne]
  have hclients : Barrier.Clients (fun i => Agrees
      (Function.update passed index (passed index + 1) i)
      (Function.update m.place index (.await ((k + 1) % 4)) i)) m.barrier := by
    refine h.clients.mono fun i hagrees => ?_
    rcases eq_or_ne i index with rfl | hne
    · simp only [Function.update_self]
      exact ⟨by omega, by rw [hcalls, hinAwait]; rfl⟩
    · simpa only [Function.update_of_ne hne] using hagrees
  by_cases hindex : (index : Nat) = k
  · -- what has been printed is exactly what the phases before print
    have hlength : m.printed.length = passed index := by
      apply Nat.le_antisymm
      · by_contra hgt
        exact absurd (h.done (passed index) (Nat.not_le.mp hgt) index (hindex.trans hk))
          (Nat.lt_irrefl _)
      · by_contra hlt
        have hle := h.next ⟨m.printed.length % 4, Nat.mod_lt _ (by decide)⟩ rfl
        obtain ⟨-, hup, -⟩ :=
          (h.clients.agrees ⟨m.printed.length % 4, Nat.mod_lt _ (by decide)⟩).calls_le
        have := (hphase ⟨m.printed.length % 4, Nat.mod_lt _ (by decide)⟩).1
        omega
    rw [if_pos hindex]
    refine ⟨hclients, ?_, fun p hp i hi => ?_, fun i hi => ?_⟩
    · rw [List.length_append, List.length_singleton, List.range_succ, List.map_append, ← h.printed,
        List.map_singleton, hlength, ← hk]
    · rw [List.length_append, List.length_singleton, Nat.lt_succ_iff_lt_or_eq] at hp
      rcases hp with hp | rfl
      · exact (h.done p hp i hi).trans_le (hmono i)
      · obtain rfl : i = index := by
          rw [Fin.ext_iff, hi, hlength, ← hk, hindex]
        simp [hlength]
    · rw [List.length_append, List.length_singleton, hlength]
      rcases eq_or_ne i index with rfl | hne
      · simp
      · rw [Function.update_of_ne hne]
        exact hahead i
  · rw [if_neg hindex]
    refine ⟨hclients, h.printed, fun p hp i hi => (h.done p hp i hi).trans_le (hmono i),
      fun i hi => ?_⟩
    have hle := h.next i hi
    rcases eq_or_ne i index with rfl | hne
    · rw [Function.update_self]
      refine Nat.lt_of_le_of_ne hle fun hsame => hindex ?_
      rw [hi, hk, hsame]
    · rwa [Function.update_of_ne hne]

theorem Inv.step (h : Inv m passed) (hstep : Step m l m') : ∃ passed', Inv m' passed' := by
  cases hstep with
  | @call b index k hplace hb =>
    refine ⟨passed, h.clients.call hb (fun _ _ _ _ hagrees => hagrees) fun calls hagrees => ?_,
      h.printed, h.done, h.next⟩
    rw [hplace] at hagrees ⊢
    exact ⟨hagrees.1, congrArg (· + 1) hagrees.2⟩
  | inside hinside hb => exact ⟨passed, h.clients.inside hb hinside, h.printed, h.done, h.next⟩
  | @returns b index k hplace hb =>
    refine ⟨passed, h.clients.returns hb (fun i hne _ _ hagrees => ?_) fun calls hagrees => ?_,
      h.printed, h.done, h.next⟩
    · simpa only [Function.update_of_ne hne] using hagrees
    · rw [hplace] at hagrees
      simp only [Function.update_self]
      exact ⟨hagrees.1, hagrees.2, rfl⟩
  | compare hplace => exact ⟨_, h.compare hplace⟩

/-- In every run the texts are printed in turn, and no CPU gets more than two calls of `await` ahead
of them. -/
theorem texts_in_turn (hrun : Run Step .initial ls m) :
    m.printed = (List.range m.printed.length).map (· % 4) ∧
      ∀ index, m.barrier.calls index ≤ m.printed.length + 2 := by
  obtain ⟨passed, h⟩ : ∃ passed, Inv m passed :=
    hrun.invariant (motive := fun m => ∃ passed, Inv m passed) ⟨_, .initial⟩
      fun ⟨_, h⟩ hstep => h.step hstep
  refine ⟨h.printed, fun index => ?_⟩
  -- the CPU that prints next
  set owner : Fin 4 := ⟨m.printed.length % 4, Nat.mod_lt _ (by decide)⟩
  have hnext := h.next owner rfl
  have hcalls := (h.clients.agrees owner).calls_le.2.1
  obtain ⟨lbs, hbarrier⟩ := h.clients.reachable
  have hahead := Barrier.calls_le hbarrier index owner
  omega

/-- What a label does to a state, if it can. -/
def State.after (m : State) : Label → Option State
  | .await (.call index) =>
    match m.place index with
    | .await _ => (m.barrier.after (.call index)).map fun b => { m with barrier := b }
    | .compare _ => none
  | .await (.returns index) =>
    match m.place index with
    | .await k => (m.barrier.after (.returns index)).map fun b =>
        { m with barrier := b, place := Function.update m.place index (.compare k) }
    | .compare _ => none
  | .await l => (m.barrier.after l).map fun b => { m with barrier := b }
  | .compare index =>
    match m.place index with
    | .await _ => none
    | .compare k => some
        { m with
          place := Function.update m.place index (.await ((k + 1) % 4))
          printed := if index = k then m.printed ++ [k] else m.printed }

theorem Step.of_after (h : m.after l = some m') : Step m l m' := by
  unfold State.after at h
  split at h
  case h_1 index =>
    split at h
    next hplace =>
      obtain ⟨b, hb, rfl⟩ := Option.map_eq_some_iff.mp h
      exact .call hplace (.of_after hb)
    next => cases h
  case h_2 index =>
    split at h
    next hplace =>
      obtain ⟨b, hb, rfl⟩ := Option.map_eq_some_iff.mp h
      exact .returns hplace (.of_after hb)
    next => cases h
  case h_3 lb hcall hreturns =>
    obtain ⟨b, hb, rfl⟩ := Option.map_eq_some_iff.mp h
    exact .inside (fun index => ⟨hcall index, hreturns index⟩) (.of_after hb)
  case h_4 index =>
    split at h
    next => cases h
    next hplace =>
      cases h
      exact .compare hplace

open Barrier in
/-- All CPUs arrive, and the first prints its text while the last is still in the barrier. -/
theorem texts_in_turn_firstText : ∃ ls m, Run Step .initial ls m ∧ m.printed = [0] ∧
    m.printed = (List.range m.printed.length).map (· % 4) := by
  let calls : List (Barrier.Label (Fin 4)) :=
    arriving 0 ++ arriving 1 ++ arriving 2 ++ arrivingLast 3 ++ leaving 0
  let firstText : List Label := calls.map .await ++ [.compare 0] ++ (leaving 1).map .await
  have hafter : (firstText.foldlM State.after State.initial).any fun m => m.printed = [0] := by
    decide +kernel
  obtain ⟨m, hm, hprinted⟩ := (Option.any_eq_true _ _).mp hafter
  have hrun := Run.of_foldlM Step.of_after hm
  exact ⟨_, m, hrun, of_decide_eq_true hprinted, (texts_in_turn hrun).1⟩

end SpinlockTest
end CyPhOS
