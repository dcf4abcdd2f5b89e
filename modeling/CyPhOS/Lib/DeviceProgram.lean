import CyPhOS.Lib.Run

/-! # Programs that work on a device

A program makes accesses to a device and goes on with what they return. The device has a state, in
which it answers an access or keeps the program waiting, and events of its own, which come in
between any two accesses. `Safe` is a proof outline: it gives every point of the program an
assertion that the events keep, and leads from the assertion in front of an access to the one
behind it. A guard restricts the steps that are looked at.

* `Safe.run`: what an outline says holds at every point of every run;
* `Safe.completes`: a program that is never kept waiting for good can be run to its end;
* `Serves.run`: a handler that the device starts again and again, and that repeats its body as long
  as that returns `true`.
-/

namespace DeviceProgram

open Transition

inductive Prog (Op : Type) (Res : Op → Type) (α : Type)
  | ret (a : α)
  | access (op : Op) (next : Res op → Prog Op Res α)

/-- The device answers `none` as long as the program has to wait. -/
structure Device (σ Op : Type) (Res : Op → Type) (ε : Type) where
  access : (op : Op) → σ → Option (Res op × σ)
  event : ε → σ → Option σ

variable {σ Op ε α β γ : Type} {Res : Op → Type}

namespace Prog

def bind : Prog Op Res α → (α → Prog Op Res β) → Prog Op Res β
  | .ret a, f => f a
  | .access op next, f => .access op fun r => (next r).bind f

instance : Monad (Prog Op Res) where
  pure := .ret
  bind := bind

variable {op : Op} {next : Res op → Prog Op Res α} {p : Prog Op Res α}
  {f : α → Prog Op Res β} {g : β → Prog Op Res γ}

@[simp] theorem pure_eq (a : α) : (pure a : Prog Op Res α) = .ret a := rfl

@[simp] theorem ret_bind (a : α) : (.ret a >>= f : Prog Op Res β) = f a := rfl

@[simp] theorem access_bind :
    (.access op next >>= f : Prog Op Res β) = .access op fun r => next r >>= f := rfl

@[simp] theorem bind_assoc : (p >>= f >>= g : Prog Op Res γ) = p >>= fun a => f a >>= g := by
  induction p with
  | ret a => rfl
  | access op next ih => exact congrArg (Prog.access op) (funext fun r => ih r)

end Prog

/-! ## Undisturbed runs -/

/-- Run without events to its end, the program leads to `Q`. -/
def Prog.wp (d : Device σ Op Res ε) (Q : α → σ → Prop) : Prog Op Res α → σ → Prop
  | .ret a, s => Q a s
  | .access op next, s => ∃ r s', d.access op s = some (r, s') ∧ (next r).wp d Q s'

namespace Prog

variable {d : Device σ Op Res ε} {p : Prog Op Res α} {f : α → Prog Op Res β} {s : σ}
  {Q Q' : α → σ → Prop}

@[simp] theorem wp_ret {a : α} : (.ret a : Prog Op Res α).wp d Q s ↔ Q a s := Iff.rfl

theorem wp.mono (h : p.wp d Q s) (hQ : ∀ a s, Q a s → Q' a s) : p.wp d Q' s := by
  induction p generalizing s with
  | ret a => exact hQ a s h
  | access op next ih =>
    obtain ⟨r, s', haccess, h⟩ := h
    exact ⟨r, s', haccess, ih r h⟩

/-- There is one such run. -/
theorem wp.and (h : p.wp d Q s) (h' : p.wp d Q' s) :
    p.wp d (fun a s => Q a s ∧ Q' a s) s := by
  induction p generalizing s with
  | ret a => exact ⟨h, h'⟩
  | access op next ih =>
    obtain ⟨r, s', haccess, h⟩ := h
    obtain ⟨r', s'', haccess', h'⟩ := h'
    cases haccess.symm.trans haccess'
    exact ⟨r, s', haccess, ih r h h'⟩

end Prog

/-! ## Steps -/

inductive Label (Op ε : Type)
  | access (op : Op)
  | event (e : ε)
  deriving DecidableEq

inductive Step (d : Device σ Op Res ε) :
    σ × Prog Op Res α → Label Op ε → σ × Prog Op Res α → Prop
  | access {s s' : σ} {op : Op} {next : Res op → Prog Op Res α} {r : Res op} :
    d.access op s = some (r, s') → Step d (s, .access op next) (.access op) (s', next r)
  | event {s s' : σ} {p : Prog Op Res α} {e : ε} :
    d.event e s = some s' → Step d (s, p) (.event e) (s', p)

/-- Which steps are looked at. -/
abbrev Guard (σ Op : Type) (Res : Op → Type) (ε α : Type) : Type :=
  σ → Prog Op Res α → Label Op ε → Prop

/-- All steps are looked at. -/
def Guard.any : Guard σ Op Res ε α := fun _ _ _ => True

/-- The steps that the guard lets pass. -/
def Guarded (d : Device σ Op Res ε) (guard : Guard σ Op Res ε α) (c : σ × Prog Op Res α)
    (l : Label Op ε) (c' : σ × Prog Op Res α) : Prop :=
  Step d c l c' ∧ guard c.1 c.2 l

variable {d : Device σ Op Res ε} {guard : Guard σ Op Res ε α} {p p' : Prog Op Res α}
  {s s' : σ} {l : Label Op ε} {ls : List (Label Op ε)}

/-! ## Outlines -/

/-- The events that may come at this point keep the assertion. -/
def Stable (d : Device σ Op Res ε) (guard : Guard σ Op Res ε α) (p : Prog Op Res α)
    (J : σ → Prop) : Prop :=
  ∀ s e s', J s → guard s p (.event e) → d.event e s = some s' → J s'

theorem Stable.and {J J' : σ → Prop} (h : Stable d guard p J) (h' : Stable d guard p J') :
    Stable d guard p fun s => J s ∧ J' s :=
  fun s e s' hJ hguard he => ⟨h s e s' hJ.1 hguard he, h' s e s' hJ.2 hguard he⟩

/-- An outline of a program. `G` holds at every point and `Q` at the end. -/
inductive Safe (d : Device σ Op Res ε) (guard : Guard σ Op Res ε α)
    (G : σ → Prog Op Res α → Prop) (Q : α → σ → Prop) : Prog Op Res α → σ → Prop
  | ret {a : α} {s : σ} (J : σ → Prop) : Stable d guard (.ret a) J → J s →
    (∀ s, J s → G s (.ret a) ∧ Q a s) → Safe d guard G Q (.ret a) s
  | access {op : Op} {next : Res op → Prog Op Res α} {s : σ} (J : σ → Prop) :
    Stable d guard (.access op next) J → J s → (∀ s, J s → G s (.access op next)) →
    (∀ s r s', J s → guard s (.access op next) (.access op) → d.access op s = some (r, s') →
      Safe d guard G Q (next r) s') →
    Safe d guard G Q (.access op next) s

variable {G : σ → Prog Op Res α → Prop} {Q : α → σ → Prop}

theorem Safe.point (h : Safe d guard G Q p s) : G s p := by
  cases h with
  | ret J _ hJ hend => exact (hend s hJ).1
  | access J _ hJ hG _ => exact hG s hJ

theorem Safe.post {a : α} (h : Safe d guard G Q (.ret a) s) : Q a s := by
  cases h with
  | ret J _ hJ hend => exact (hend s hJ).2

theorem Safe.mono {Q' : α → σ → Prop} (h : Safe d guard G Q p s) (hQ : ∀ a s, Q a s → Q' a s) :
    Safe d guard G Q' p s := by
  induction h with
  | ret J hstable hJ hend =>
    exact .ret J hstable hJ fun s hs => ⟨(hend s hs).1, hQ _ s (hend s hs).2⟩
  | access J hstable hJ hG _ ih => exact .access J hstable hJ hG ih

theorem Safe.step (h : Safe d guard G Q p s) (hstep : Guarded d guard (s, p) l (s', p')) :
    Safe d guard G Q p' s' := by
  obtain ⟨hstep, hguard⟩ := hstep
  cases hstep with
  | access haccess =>
    cases h with
    | access J _ hJ _ hnext => exact hnext s _ s' hJ hguard haccess
  | event hevent =>
    cases h with
    | ret J hstable hJ hend => exact .ret J hstable (hstable s _ s' hJ hguard hevent) hend
    | access J hstable hJ hG hnext =>
      exact .access J hstable (hstable s _ s' hJ hguard hevent) hG hnext

theorem Safe.run (h : Safe d guard G Q p s) (hrun : Run (Guarded d guard) (s, p) ls (s', p')) :
    Safe d guard G Q p' s' :=
  hrun.invariant (motive := fun c => Safe d guard G Q c.2 c.1) h fun h hstep => h.step hstep

/-! ## Running to the end -/

/-- The program is at its end, or events can come until its access is answered. -/
def CanGoOn (d : Device σ Op Res ε) (guard : Guard σ Op Res ε α) (s : σ) :
    Prog Op Res α → Prop
  | .ret _ => True
  | .access op next => ∃ ls s₁, Run (Guarded d guard) (s, .access op next) ls
      (s₁, .access op next) ∧ guard s₁ (.access op next) (.access op) ∧ (d.access op s₁).isSome

variable {op : Op} {next : Res op → Prog Op Res α}

theorem CanGoOn.now (hguard : guard s (.access op next) (.access op))
    (h : (d.access op s).isSome) : CanGoOn d guard s (.access op next) :=
  ⟨[], s, .nil, hguard, h⟩

/-- One event has to come first. -/
theorem CanGoOn.event (e : ε) (he : d.event e s = some s')
    (hevent : guard s (.access op next) (.event e))
    (hguard : guard s' (.access op next) (.access op)) (h : (d.access op s').isSome) :
    CanGoOn d guard s (.access op next) :=
  ⟨[.event e], s', .single ⟨.event he, hevent⟩, hguard, h⟩

theorem Safe.completes (h : Safe d guard G Q p s) (hG : ∀ s p, G s p → CanGoOn d guard s p) :
    ∃ ls a s', Run (Guarded d guard) (s, p) ls (s', .ret a) ∧ Q a s' := by
  induction p generalizing s with
  | ret a => exact ⟨[], a, s, .nil, h.post⟩
  | access op next ih =>
    obtain ⟨ls, s₁, hrun, hguard, haccess⟩ := hG s _ h.point
    obtain ⟨⟨r, s₂⟩, haccess⟩ := Option.isSome_iff_exists.mp haccess
    have hstep : Guarded d guard (s₁, .access op next) (.access op) (s₂, next r) :=
      ⟨.access haccess, hguard⟩
    obtain ⟨ms, a, s', hrest, hQ⟩ := ih r ((h.run hrun).step hstep)
    exact ⟨ls ++ [.access op] ++ ms, a, s', (hrun.snoc hstep).append hrest, hQ⟩

/-! ## Handlers -/

inductive HandlerLabel (Op ε : Type)
  | start
  | again
  | stop
  | inner (l : Label Op ε)
  deriving DecidableEq

/-- The device starts the handler, which repeats its body as long as that returns `true`. -/
inductive HandlerStep (d : Device σ Op Res ε) (raised : σ → Prop) (body : Prog Op Res Bool) :
    σ × Option (Prog Op Res Bool) → HandlerLabel Op ε → σ × Option (Prog Op Res Bool) → Prop
  | start {s : σ} : raised s → HandlerStep d raised body (s, none) .start (s, some body)
  | again {s : σ} : HandlerStep d raised body (s, some (.ret true)) .again (s, some body)
  | stop {s : σ} : HandlerStep d raised body (s, some (.ret false)) .stop (s, none)
  | inner {s s' : σ} {p p' : Prog Op Res Bool} {l : Label Op ε} : Step d (s, p) l (s', p') →
    HandlerStep d raised body (s, some p) (.inner l) (s', some p')
  | event {s s' : σ} {e : ε} : d.event e s = some s' →
    HandlerStep d raised body (s, none) (.inner (.event e)) (s', none)

/-- The steps that the guard lets pass. While the handler does not run the events are those that
could come after its body. -/
def HandlerGuarded (d : Device σ Op Res ε) (raised : σ → Prop) (body : Prog Op Res Bool)
    (guard : Guard σ Op Res ε Bool) (c : σ × Option (Prog Op Res Bool))
    (l : HandlerLabel Op ε) (c' : σ × Option (Prog Op Res Bool)) : Prop :=
  HandlerStep d raised body c l c' ∧ ∀ l', l = .inner l' → guard c.1 (c.2.getD (.ret false)) l'

/-- What a handler keeps to: an invariant from one body to the next, and an outline within. -/
def Serves (d : Device σ Op Res ε) (guard : Guard σ Op Res ε Bool)
    (G : σ → Prog Op Res Bool → Prop) (I : σ → Prop) (s : σ) :
    Option (Prog Op Res Bool) → Prop
  | none => I s
  | some p => Safe d guard G (fun _ => I) p s

theorem Serves.run {raised : σ → Prop} {body : Prog Op Res Bool}
    {guard : Guard σ Op Res ε Bool} {G : σ → Prog Op Res Bool → Prop} {I : σ → Prop}
    {t t' : Option (Prog Op Res Bool)} {ls : List (HandlerLabel Op ε)}
    (hidle : Stable d guard (.ret false) I)
    (hbody : ∀ s, I s → Safe d guard G (fun _ => I) body s) (h : Serves d guard G I s t)
    (hrun : Run (HandlerGuarded d raised body guard) (s, t) ls (s', t')) :
    Serves d guard G I s' t' := by
  refine hrun.invariant (motive := fun c => Serves d guard G I c.1 c.2) h ?_
  rintro ⟨s, t⟩ l ⟨s', t'⟩ h ⟨hstep, hguard⟩
  cases hstep with
  | start => exact hbody s h
  | again => exact hbody s h.post
  | stop => exact h.post
  | inner hstep => exact h.step ⟨hstep, hguard _ rfl⟩
  | event hevent => exact hidle s _ s' h (hguard _ rfl) hevent

/-! ## Loops

A handler that is not started again is a loop. `I n` is what holds in front of a round that is
followed by at most `n` more, and `E` holds at the end.
-/

def HandlerLabel.isAgain : HandlerLabel Op ε → Bool
  | again => true
  | _ => false

def LoopStep (d : Device σ Op Res ε) (body : Prog Op Res Bool) (guard : Guard σ Op Res ε Bool) :
    σ × Option (Prog Op Res Bool) → HandlerLabel Op ε → σ × Option (Prog Op Res Bool) → Prop :=
  HandlerGuarded d (fun _ => False) body guard

/-- What holds behind a round. -/
def Next (I : Nat → σ → Prop) (E : σ → Prop) (n : Nat) : Bool → σ → Prop
  | true, s => ∃ m < n, I m s
  | false, s => E s

structure Variant (d : Device σ Op Res ε) (guard : Guard σ Op Res ε Bool)
    (body : Prog Op Res Bool) (I : Nat → σ → Prop) (E : σ → Prop) : Prop where
  round {n : Nat} {s : σ} : I n s → Safe d guard (fun _ _ => True) (Next I E n) body s
  stable : Stable d guard (.ret false) E

/-- At most `n` more rounds follow. -/
def Within (d : Device σ Op Res ε) (guard : Guard σ Op Res ε Bool) (I : Nat → σ → Prop)
    (E : σ → Prop) (n : Nat) (s : σ) : Option (Prog Op Res Bool) → Prop
  | none => E s
  | some p => Safe d guard (fun _ _ => True) (Next I E n) p s

section
variable {body first q : Prog Op Res Bool} {guard : Guard σ Op Res ε Bool} {I : Nat → σ → Prop}
  {E : σ → Prop} {n : Nat} {t t' : Option (Prog Op Res Bool)} {ks : List (HandlerLabel Op ε)}

theorem Variant.run (h : Variant d guard body I E) (hstart : Within d guard I E n s t)
    (hrun : Run (LoopStep d body guard) (s, t) ks (s', t')) :
    ∃ m, ks.countP HandlerLabel.isAgain + m ≤ n ∧ Within d guard I E m s' t' := by
  generalize hc : (s', t') = c at hrun
  induction hrun generalizing s' t' with
  | nil =>
    cases hc
    exact ⟨n, by simp, hstart⟩
  | @snoc ks c l c' _ hstep ih =>
    subst hc
    obtain ⟨s₁, t₁⟩ := c
    obtain ⟨m, hm, hwithin⟩ := ih rfl
    obtain ⟨hstep, hguard⟩ := hstep
    rw [List.countP_append, List.countP_singleton]
    cases hstep with
    | start hfalse => exact hfalse.elim
    | again =>
      obtain ⟨k, hk, hI⟩ : ∃ k < m, I k s' := hwithin.post
      exact ⟨k, by simp only [HandlerLabel.isAgain, if_true]; omega, h.round hI⟩
    | stop => exact ⟨m, by simpa [HandlerLabel.isAgain] using hm, hwithin.post⟩
    | inner hstep =>
      exact ⟨m, by simpa [HandlerLabel.isAgain] using hm, hwithin.step ⟨hstep, hguard _ rfl⟩⟩
    | event hevent =>
      exact ⟨m, by simpa [HandlerLabel.isAgain] using hm,
        h.stable s₁ _ s' hwithin (hguard _ rfl) hevent⟩

/-- A run of a round is a run of the loop. -/
theorem run_inner (hrun : Run (Guarded d guard) (s, first) ls (s', q)) :
    Run (LoopStep d body guard) (s, some first) (ls.map .inner) (s', some q) := by
  have hlift : ∃ c, Run (LoopStep d body guard) (s, some first) (ls.map .inner) c ∧
      c = (s', some q) := by
    refine hrun.simulate (R := fun c c' => c' = (c.1, some c.2)) rfl ?_
    rintro c l c' _ rfl ⟨hstep, hguard⟩
    exact ⟨_, ⟨.inner hstep, fun l' hl => by cases hl; exact hguard⟩, rfl⟩
  obtain ⟨_, hlift, rfl⟩ := hlift
  exact hlift

/-- A loop with a variant can be run to its end. -/
theorem Variant.finishes (h : Variant d guard body I E) (hgo : ∀ s p, CanGoOn d guard s p)
    (hstart : Within d guard I E n s t) :
    ∃ ks s', Run (LoopStep d body guard) (s, t) ks (s', none) := by
  cases t with
  | none => exact ⟨[], s, .nil⟩
  | some p =>
    induction n using Nat.strongRecOn generalizing s p with
    | _ n ih =>
      obtain ⟨ls, a, s₁, hrun, hnext⟩ := Safe.completes hstart fun s p _ => hgo s p
      have hrun : Run (LoopStep d body guard) (s, some p) (ls.map .inner) (s₁, some (.ret a)) :=
        run_inner hrun
      cases a with
      | false => exact ⟨_, s₁, hrun.snoc ⟨.stop, nofun⟩⟩
      | true =>
        obtain ⟨m, hm, hI⟩ := hnext
        obtain ⟨ks, s₂, hrest⟩ := ih m hm body (h.round hI)
        exact ⟨_, s₂, (hrun.snoc ⟨.again, nofun⟩).append hrest⟩

/-- A loop that goes on after every round does not end. -/
theorem never_ends {I : σ → Prop} (hround : ∀ s, I s →
      Safe d guard (fun _ _ => True) (fun a s => a = true ∧ I s) body s)
    (hstart : Safe d guard (fun _ _ => True) (fun a s => a = true ∧ I s) first s)
    (hrun : Run (LoopStep d body guard) (s, some first) ks (s', t')) : t' ≠ none := by
  have hon : ∃ q, t' = some q ∧
      Safe d guard (fun _ _ => True) (fun a s => a = true ∧ I s) q s' := by
    refine hrun.invariant (motive := fun c => ∃ q, c.2 = some q ∧
      Safe d guard (fun _ _ => True) (fun a s => a = true ∧ I s) q c.1) ⟨first, rfl, hstart⟩ ?_
    rintro ⟨s, _⟩ l ⟨s', t'⟩ ⟨q, rfl, hq⟩ ⟨hstep, hguard⟩
    cases hstep with
    | again => exact ⟨body, rfl, hround _ hq.post.2⟩
    | stop => cases hq.post.1
    | inner hstep => exact ⟨_, rfl, hq.step ⟨hstep, hguard _ rfl⟩⟩
  obtain ⟨q, rfl, -⟩ := hon
  nofun

end

end DeviceProgram
