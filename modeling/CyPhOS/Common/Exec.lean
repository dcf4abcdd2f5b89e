import Mathlib.Logic.Basic

/-! # Calls that may fail to return

The C++ functions are modelled as functions into `Exec`. A call that dereferences a null pointer or
never ends has no result. `Exec.Sat hangs x Q` is what a total specification says of such a call:
it dereferences no null pointer, its result satisfies `Q`, and if it hangs then for the reason
`hangs`. Loops that wait for a device return once the device is known to be done (`poll_returns`).
-/

namespace CyPhOS

/-- How a call can fail to return. -/
inductive Fault
  | nullDereference
  | hang
  deriving DecidableEq, Repr

abbrev Exec (α : Type) := Except Fault α

namespace Exec

variable {α β : Type} {hangs : Prop} {x : Exec α} {f : α → Exec β} {P : α → Prop} {Q : β → Prop}

@[simp] theorem ok_bind (a : α) (f : α → Exec β) : (Except.ok a >>= f : Exec β) = f a := rfl

@[simp] theorem error_bind (e : Fault) (f : α → Exec β) :
    (Except.error e >>= f : Exec β) = .error e := rfl

@[simp] theorem pure_eq (a : α) : (pure a : Exec α) = .ok a := rfl

theorem bind_eq_ok {b : β} : x >>= f = .ok b ↔ ∃ a, x = .ok a ∧ f a = .ok b := by
  cases x <;> simp

theorem toOption_eq_some {a : α} : x.toOption = some a ↔ x = .ok a := by
  cases x <;> simp [Except.toOption]

/-- The call returns a value that satisfies the postcondition, or it hangs for the given reason. -/
def Sat (hangs : Prop) (x : Exec α) (Q : α → Prop) : Prop :=
  match x with
  | .ok a => Q a
  | .error .hang => hangs
  | .error .nullDereference => False

@[simp] theorem sat_ok {a : α} : Sat hangs (.ok a) P ↔ P a := .rfl

@[simp] theorem sat_hang : Sat hangs (.error .hang : Exec α) P ↔ hangs := .rfl

theorem Sat.bind (h : Sat hangs x P) (hf : ∀ a, P a → Sat hangs (f a) Q) :
    Sat hangs (x >>= f) Q :=
  match x, h with
  | .ok a, h => hf a h
  | .error .hang, h => h

theorem Sat.mono {P' : α → Prop} (h : Sat hangs x P) (hP : ∀ a, P a → P' a) : Sat hangs x P' :=
  match x, h with
  | .ok a, h => hP a h
  | .error .hang, h => h

theorem Sat.weaken {hangs' : Prop} (h : Sat hangs x P) (hh : hangs → hangs') : Sat hangs' x P :=
  match x, h with
  | .ok _, h => h
  | .error .hang, h => hh h

/-- Partial correctness. -/
theorem Sat.of_eq_ok {a : α} (hx : x = .ok a) (h : Sat hangs x P) : P a := by
  subst hx
  exact h

/-- Without a reason to hang the call returns. -/
theorem Sat.exists_eq_ok (h : Sat hangs x P) (hhangs : ¬ hangs) : ∃ a, x = .ok a ∧ P a :=
  match x, h with
  | .ok a, h => ⟨a, rfl, h⟩
  | .error .hang, h => (hhangs h).elim

/-- A loop that polls a status ends at the latest with a poll that is known to find it idle. -/
theorem poll_returns {σ : Type} (loop : Nat → σ → Exec α) (busy : Nat → Prop) [DecidablePred busy]
    (polls : σ → Nat) (next : σ → σ) (stop : σ → α) (inv : σ → Prop)
    (hloop : ∀ fuel s,
      loop (fuel + 1) s = if busy (polls s) then loop fuel (next s) else .ok (stop s))
    (hpolls : ∀ s, polls (next s) = polls s + 1) (hnext : ∀ s, inv s → inv (next s))
    {s : σ} (hs : inv s) {k fuel : Nat} (hidle : ¬busy (polls s + k)) (hfuel : k < fuel) :
    ∃ s', inv s' ∧ loop fuel s = .ok (stop s') := by
  induction k generalizing s fuel with
  | zero =>
    obtain ⟨fuel, rfl⟩ := Nat.exists_eq_add_of_lt hfuel
    exact ⟨s, hs, by rw [hloop]; exact if_neg hidle⟩
  | succ k ih =>
    obtain ⟨fuel, rfl⟩ : ∃ n, fuel = n + 1 := ⟨fuel - 1, by omega⟩
    rw [hloop]
    split
    · refine ih (hnext s hs) ?_ (by omega)
      rwa [hpolls, Nat.add_right_comm]
    · exact ⟨s, hs, rfl⟩

end Exec

end CyPhOS
