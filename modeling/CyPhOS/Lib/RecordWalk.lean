import Mathlib.Logic.Basic

/-! # Walks over records

A loop that goes from one place to the next until there is none visits a list of places
(`Walk step start visited`); `follow` is the loop with a number of rounds.

Records of different sizes in a block of memory follow one another: `Chain next P stop a records`
says that the records from `a` on, each of which satisfies `P`, end at `stop`. A loop that ends where
the next record would be at `stop`, and only there, visits records that satisfy `P` if and only if
there is such a chain (`walksIn_iff_chain`). A record that leads to itself is in none
(`not_chain_of_next_self`).
-/

namespace RecordWalk

variable {σ : Type*} {step : σ → Option σ} {s : σ} {start : Option σ} {visited visited' : List σ}

inductive Walk (step : σ → Option σ) : Option σ → List σ → Prop
  | done : Walk step none []
  | visit {s : σ} {visited : List σ} : Walk step (step s) visited →
      Walk step (some s) (s :: visited)

/-- The loop, which may run out of rounds. -/
def follow (step : σ → Option σ) : Nat → Option σ → Option (List σ)
  | _, none => some []
  | 0, some _ => none
  | fuel + 1, some s => (follow step fuel (step s)).map (s :: ·)

theorem follow_eq_some {fuel : Nat} :
    follow step fuel start = some visited ↔ Walk step start visited ∧ visited.length ≤ fuel := by
  constructor
  · intro h
    induction fuel generalizing start visited with
    | zero =>
      cases start with
      | none =>
        cases h
        exact ⟨.done, Nat.le_refl _⟩
      | some s => cases h
    | succ fuel ih =>
      cases start with
      | none =>
        cases h
        exact ⟨.done, Nat.zero_le _⟩
      | some s =>
        obtain ⟨rest, hrest, rfl⟩ := Option.map_eq_some_iff.mp h
        obtain ⟨hwalk, hlength⟩ := ih hrest
        exact ⟨.visit hwalk, Nat.succ_le_succ hlength⟩
  · rintro ⟨h, hlength⟩
    induction h generalizing fuel with
    | done => cases fuel <;> rfl
    | visit _ ih =>
      cases fuel with
      | zero => cases hlength
      | succ fuel =>
        rw [follow, ih (Nat.le_of_succ_le_succ hlength)]
        rfl

variable {Q : σ → Prop}

/-- The loop ends, and visits only places that satisfy `Q`. -/
def WalksIn (step : σ → Option σ) (Q : σ → Prop) (start : Option σ) : Prop :=
  ∃ visited, Walk step start visited ∧ ∀ s ∈ visited, Q s

theorem walksIn_iff_follow : WalksIn step Q start ↔
    ∃ fuel visited, follow step fuel start = some visited ∧ ∀ s ∈ visited, Q s := by
  constructor
  · rintro ⟨visited, h, hQ⟩
    exact ⟨visited.length, visited, follow_eq_some.mpr ⟨h, Nat.le_refl _⟩, hQ⟩
  · rintro ⟨fuel, visited, h, hQ⟩
    exact ⟨visited, (follow_eq_some.mp h).1, hQ⟩

theorem walksIn_none : WalksIn step Q none := ⟨[], .done, fun _ h => nomatch h⟩

theorem walksIn_some : WalksIn step Q (some s) ↔ Q s ∧ WalksIn step Q (step s) := by
  constructor
  · rintro ⟨_, h, hQ⟩
    cases h with
    | visit h =>
      obtain ⟨hs, hQ⟩ := List.forall_mem_cons.mp hQ
      exact ⟨hs, _, h, hQ⟩
  · rintro ⟨hs, visited, h, hQ⟩
    exact ⟨s :: visited, .visit h, List.forall_mem_cons.mpr ⟨hs, hQ⟩⟩

/-! ## Chains of records -/

variable {P : Nat → Prop} {next : Nat → Nat} {a stop : Nat} {records : List Nat}

inductive Chain (next : Nat → Nat) (P : Nat → Prop) (stop : Nat) : Nat → List Nat → Prop
  | nil : Chain next P stop stop []
  | cons {a : Nat} {records : List Nat} : P a → Chain next P stop (next a) records →
    Chain next P stop a (a :: records)

theorem chain_nil_iff : Chain next P stop a [] ↔ a = stop := by
  constructor
  · intro h
    cases h
    rfl
  · rintro rfl
    exact .nil

/-- A record that leads to itself is in no chain. -/
theorem not_chain_of_next_self (ha : next a = a) (hne : a ≠ stop) :
    ¬ Chain next P stop a records := by
  induction records with
  | nil => exact fun h => hne (chain_nil_iff.mp h)
  | cons r records ih =>
    intro h
    cases h with
    | cons _ hrest => exact ih (ha ▸ hrest)

/-- A loop whose place is `pos`, where the next place is that of the next record. -/
theorem walksIn_iff_chain (Inv : σ → Prop) (pos : σ → Nat)
    (hlast : ∀ s, Inv s → P (pos s) → next (pos s) = stop → step s = none)
    (hnext : ∀ s, Inv s → P (pos s) → next (pos s) ≠ stop →
      ∃ s', step s = some s' ∧ Inv s' ∧ pos s' = next (pos s)) (hs : Inv s) :
    WalksIn step (fun s => P (pos s)) (some s) ↔
      ∃ records, records ≠ [] ∧ Chain next P stop (pos s) records := by
  constructor
  · rintro ⟨visited, hwalk, hP⟩
    refine ⟨visited.map pos, ?_, ?_⟩
    · cases hwalk
      exact List.cons_ne_nil _ _
    · generalize hstart : some s = start at hwalk
      induction hwalk generalizing s with
      | done => cases hstart
      | @visit r visited hrest ih =>
        obtain rfl : s = r := Option.some.inj hstart
        obtain ⟨hPs, hP⟩ := List.forall_mem_cons.mp hP
        refine .cons hPs ?_
        by_cases hend : next (pos s) = stop
        · rw [hlast s hs hPs hend] at hrest
          cases hrest
          rw [hend]
          exact .nil
        · obtain ⟨s', hs', hinv, hpos⟩ := hnext s hs hPs hend
          exact hpos ▸ ih hinv hP hs'.symm
  · rintro ⟨records, hne, hchain⟩
    induction records generalizing s with
    | nil => exact absurd rfl hne
    | cons a records ih =>
      generalize ha : pos s = p at hchain
      cases hchain with
      | cons hPa hrest =>
        rw [← ha] at hPa hrest
        refine walksIn_some.mpr ⟨hPa, ?_⟩
        by_cases hend : next (pos s) = stop
        · rw [hlast s hs hPa hend]
          exact walksIn_none
        · obtain ⟨s', hs', hinv, hpos⟩ := hnext s hs hPa hend
          have hmore : records ≠ [] := by
            rintro rfl
            exact hend (chain_nil_iff.mp hrest)
          rw [hs']
          exact ih hinv hmore (hpos ▸ hrest)

end RecordWalk
