import Mathlib.Data.List.Induction

/-! # Runs of a labelled transition relation

`Run step s ls t` says that the labels `ls`, taken in order, lead from `s` to `t`. A machine whose
steps are guarded is the relation restricted to the guard, so the rules below serve for "every run
whose steps all meet the condition" as well.

* `Run.invariant`: what a step preserves, a run preserves;
* `run_append_iff`, `run_cons_iff`: runs split where their label lists split;
* `Run.simulate`: a run of one relation is matched by a run of another;
* `Run.filterMap`: a run of a machine is one of its component, which makes some of the steps;
* `exists_nth`: a label list with `n` labels of a kind has an `n`-th one.
-/

namespace Transition

/-- A run from `s` to `t` along the labels `ls`. -/
inductive Run {σ ι : Type*} (step : σ → ι → σ → Prop) : σ → List ι → σ → Prop
  | nil {s} : Run step s [] s
  | snoc {s ls t l u} : Run step s ls t → step t l u → Run step s (ls ++ [l]) u

variable {σ τ ι κ : Type*} {s t u : σ} {l : ι} {ls ms : List ι} {step : σ → ι → σ → Prop}

/-- What every step preserves holds at the end of a run. -/
theorem Run.invariant {motive : σ → Prop} (h : Run step s ls t) (h0 : motive s)
    (hstep : ∀ {s l t}, motive s → step s l t → motive t) : motive t := by
  induction h with
  | nil => exact h0
  | snoc _ hs ih => exact hstep ih hs

theorem Run.mono {step' : σ → ι → σ → Prop} (h : Run step s ls t)
    (hstep : ∀ {s l t}, step s l t → step' s l t) : Run step' s ls t := by
  induction h with
  | nil => exact .nil
  | snoc _ hs ih => exact .snoc ih (hstep hs)

/-- A run whose labels satisfy a guard in every state. -/
theorem Run.guard (h : Run step s ls t) (guard : σ → ι → Prop) (hguard : ∀ l ∈ ls, ∀ s, guard s l) :
    Run (fun s l t => step s l t ∧ guard s l) s ls t := by
  induction h with
  | nil => exact .nil
  | snoc _ hs ih =>
    refine .snoc (ih fun l hl => hguard l (by simp [hl])) ⟨hs, hguard _ (by simp) _⟩

theorem Run.single (h : step s l t) : Run step s [l] t :=
  Run.snoc Run.nil h

theorem Run.append (h : Run step s ls t) (h' : Run step t ms u) : Run step s (ls ++ ms) u := by
  induction h' with
  | nil => simpa using h
  | snoc _ hs ih => simpa using ih.snoc hs

theorem run_nil_iff : Run step s [] t ↔ s = t := by
  constructor
  · generalize hls : ([] : List ι) = ls
    intro h
    cases h with
    | nil => rfl
    | snoc => simp at hls
  · rintro rfl
    exact .nil

theorem run_snoc_iff : Run step s (ls ++ [l]) u ↔ ∃ t, Run step s ls t ∧ step t l u := by
  constructor
  · generalize hms : ls ++ [l] = ms
    intro h
    cases h with
    | nil => simp at hms
    | snoc h hs =>
      obtain ⟨rfl, hl⟩ := List.append_inj' hms rfl
      cases hl
      exact ⟨_, h, hs⟩
  · rintro ⟨t, h, hs⟩
    exact h.snoc hs

theorem run_append_iff : Run step s (ls ++ ms) u ↔ ∃ t, Run step s ls t ∧ Run step t ms u := by
  constructor
  · intro h
    induction ms using List.reverseRecOn generalizing u with
    | nil => exact ⟨u, by simpa using h, .nil⟩
    | append_singleton ms l ih =>
      rw [← List.append_assoc, run_snoc_iff] at h
      obtain ⟨t, ht, hs⟩ := h
      obtain ⟨v, hv, hvt⟩ := ih ht
      exact ⟨v, hv, hvt.snoc hs⟩
  · rintro ⟨t, h, h'⟩
    exact h.append h'

theorem run_cons_iff : Run step s (l :: ms) u ↔ ∃ t, step s l t ∧ Run step t ms u := by
  rw [← List.singleton_append, run_append_iff]
  constructor
  · rintro ⟨t, h, h'⟩
    obtain ⟨v, hv, hs⟩ := run_snoc_iff.mp (show Run step s ([] ++ [l]) t from h)
    cases run_nil_iff.mp hv
    exact ⟨t, hs, h'⟩
  · rintro ⟨t, hs, h'⟩
    exact ⟨t, .single hs, h'⟩

/-- Labels along which a machine can be run. -/
theorem Run.of_foldlM {after : σ → ι → Option σ} (hafter : ∀ {s l t}, after s l = some t → step s l t)
    (h : ls.foldlM after s = some t) : Run step s ls t := by
  induction ls generalizing s with
  | nil =>
    cases h
    exact .nil
  | cons l ls ih =>
    obtain ⟨u, hstep, hrest⟩ := Option.bind_eq_some_iff.mp h
    exact run_cons_iff.mpr ⟨u, hafter hstep, ih hrest⟩

/-- A simulation carries runs over to the simulating relation, label by label. -/
theorem Run.simulate {step' : τ → κ → τ → Prop} {R : σ → τ → Prop} {f : ι → κ} {a : τ}
    (h : Run step s ls t) (h0 : R s a)
    (hstep : ∀ {s l t a}, R s a → step s l t → ∃ b, step' a (f l) b ∧ R t b) :
    ∃ b, Run step' a (ls.map f) b ∧ R t b := by
  induction h with
  | nil => exact ⟨a, .nil, h0⟩
  | snoc _ hs ih =>
    obtain ⟨b, hb, hR⟩ := ih
    obtain ⟨c, hc, hR⟩ := hstep hR hs
    exact ⟨c, by simpa using hb.snoc hc, hR⟩

/-- A component of the machine makes a run, of those steps that it takes part in. -/
theorem Run.filterMap {step' : τ → κ → τ → Prop} {f : ι → Option κ} (g : σ → τ)
    (h : Run step s ls t) (hstep : ∀ {s l t}, step s l t →
      (∃ k, f l = some k ∧ step' (g s) k (g t)) ∨ f l = none ∧ g t = g s) :
    Run step' (g s) (ls.filterMap f) (g t) := by
  induction h with
  | nil => exact .nil
  | snoc _ hs ih =>
    rw [List.filterMap_append]
    rcases hstep hs with ⟨k, hl, hk⟩ | ⟨hl, hg⟩
    · rw [List.filterMap_cons_some hl]
      exact ih.snoc hk
    · rw [List.filterMap_cons_none hl, hg, List.filterMap_nil, List.append_nil]
      exact ih

theorem exists_nth {p : ι → Bool} {n : Nat} (hn : 0 < n) (hcount : n ≤ ls.countP p) :
    ∃ ks l ms, ls = ks ++ l :: ms ∧ p l = true ∧ ks.countP p + 1 = n := by
  induction ls using List.reverseRecOn with
  | nil => exact absurd hn (Nat.not_lt.mpr hcount)
  | append_singleton ls l ih =>
    rcases Nat.lt_or_ge (ls.countP p) n with hlt | hge
    · rw [List.countP_append, List.countP_singleton] at hcount
      cases hl : p l with
      | false =>
        rw [hl] at hcount
        exact absurd hlt (Nat.not_lt.mpr hcount)
      | true =>
        rw [hl, if_pos rfl] at hcount
        exact ⟨ls, l, [], rfl, hl, by omega⟩
    · obtain ⟨ks, k, ms, rfl, hk, hks⟩ := ih hge
      exact ⟨ks, k, ms ++ [l], by simp, hk, hks⟩

end Transition
