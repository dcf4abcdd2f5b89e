import CyPhOS.Lib.Run
import Mathlib.Data.BitVec

/-! # The recursive core lock

A CPU that finds its own number in `pCPUID` enters without taking `lock_status`. The number is 0
before the first acquisition and is not reset by a release, so a CPU that is not inside may find its
own one (`corelock_lets_two_in`). In the runs where that does not happen, and where `pCount` does
not wrap around, only one CPU is inside (`corelock_exclusive`): `Inv` says who owns the lock, and
what the owner finds in the two counters at each place.

Each load and store of a member is one step, and so is the pair of `LDREX` and `STREX` that
succeeds.
-/

namespace CyPhOS

open Transition

namespace Corelock

/-- Where a CPU is, named after what it does next, with `pCount` as far as it has been loaded. The
flag says if the counter is incremented on the way of an owner. -/
inductive Control
  | ready
  | spins
  | loads (owner : Bool)
  | stores (owner : Bool) (count : BitVec 32)
  | setsOwner
  | loadsDown
  | storesDown (count : BitVec 32)
  | tests
  | frees
  deriving DecidableEq

/-- The lock and the CPUs, and how many calls of `lock` have returned to a CPU for which it has not
called `unlock` yet. -/
structure State (C : Type) where
  lock_status : BitVec 8
  pCPUID : BitVec 32
  pCount : BitVec 32
  control : C → Control
  depth : C → Nat

/-- In static storage, where `pCount` is 0 without being initialized. -/
def State.initial {C : Type} : State C :=
  { lock_status := 0, pCPUID := 0, pCount := 0, control := fun _ => .ready, depth := fun _ => 0 }

/-- A CPU that is inside the lock. -/
def State.Inside {C : Type} (m : State C) (cpu : C) : Prop := 0 < m.depth cpu

instance {C : Type} {m : State C} {cpu : C} : Decidable (m.Inside cpu) :=
  inferInstanceAs (Decidable (0 < m.depth cpu))

inductive Label (C : Type)
  | lock (cpu : C)
  | unlock (cpu : C)
  | other (cpu : C)

variable {C : Type} [DecidableEq C]

def State.goto (m : State C) (cpu : C) (control : Control) : State C :=
  { m with control := Function.update m.control cpu control }

/-- A call of `lock` returns. -/
def State.enter (m : State C) (cpu : C) : State C :=
  { m.goto cpu .ready with depth := Function.update m.depth cpu (m.depth cpu + 1) }

/-- `unlock` is called. -/
def State.leave (m : State C) (cpu : C) (control : Control) : State C :=
  { m.goto cpu control with depth := Function.update m.depth cpu (m.depth cpu - 1) }

variable (getCPUID : C → BitVec 32)

inductive Step : State C → Label C → State C → Prop
  | lockOwned {m cpu} : m.control cpu = .ready → m.pCPUID = getCPUID cpu →
    Step m (.lock cpu) (m.goto cpu (.loads true))
  | lock {m cpu} : m.control cpu = .ready → m.pCPUID ≠ getCPUID cpu →
    Step m (.lock cpu) (m.goto cpu .spins)
  /-- The lock is taken, or the store fails. -/
  | again {m cpu} : m.control cpu = .spins → Step m (.other cpu) m
  | take {m cpu} : m.control cpu = .spins → m.lock_status = 0 →
    Step m (.other cpu) { m.goto cpu (.loads false) with lock_status := 1 }
  | load {m cpu owner} : m.control cpu = .loads owner →
    Step m (.other cpu) (m.goto cpu (.stores owner m.pCount))
  | storeOwned {m cpu count} : m.control cpu = .stores true count →
    Step m (.other cpu) { m.enter cpu with pCount := count + 1 }
  | store {m cpu count} : m.control cpu = .stores false count →
    Step m (.other cpu) { m.goto cpu .setsOwner with pCount := count + 1 }
  | setOwner {m cpu} : m.control cpu = .setsOwner →
    Step m (.other cpu) { m.enter cpu with pCPUID := getCPUID cpu }
  | unlockOwned {m cpu} : m.control cpu = .ready → m.Inside cpu → m.pCPUID = getCPUID cpu →
    Step m (.unlock cpu) (m.leave cpu .loadsDown)
  | unlock {m cpu} : m.control cpu = .ready → m.Inside cpu → m.pCPUID ≠ getCPUID cpu →
    Step m (.unlock cpu) (m.leave cpu .tests)
  | loadDown {m cpu} : m.control cpu = .loadsDown →
    Step m (.other cpu) (m.goto cpu (.storesDown m.pCount))
  | storeDown {m cpu count} : m.control cpu = .storesDown count →
    Step m (.other cpu) { m.goto cpu .tests with pCount := count - 1 }
  | keep {m cpu} : m.control cpu = .tests → m.pCount ≠ 0 →
    Step m (.other cpu) (m.goto cpu .ready)
  | giveUp {m cpu} : m.control cpu = .tests → m.pCount = 0 →
    Step m (.other cpu) (m.goto cpu .frees)
  | free {m cpu} : m.control cpu = .frees →
    Step m (.other cpu) { m.goto cpu .ready with lock_status := 0 }

/-- A CPU that finds its own number is inside, and can be counted once more. -/
def Label.Sound (m : State C) : Label C → Prop
  | lock cpu => m.pCPUID = getCPUID cpu → m.Inside cpu ∧ m.pCount + 1 ≠ 0
  | _ => True

def SoundStep (m : State C) (l : Label C) (m' : State C) : Prop :=
  Step getCPUID m l m' ∧ l.Sound getCPUID m

/-! ## The owner -/

/-- What the owner finds, by the place where it is and by its depth. -/
def Control.Owns (own pCPUID pCount : BitVec 32) (depth : Nat) : Control → Prop
  | ready => pCPUID = own ∧ pCount.toNat = depth ∧ 0 < depth
  | spins => False
  | loads true => pCPUID = own ∧ pCount.toNat = depth ∧ 0 < depth ∧ depth + 1 < 2 ^ 32
  | stores true count =>
    pCPUID = own ∧ pCount.toNat = depth ∧ 0 < depth ∧ depth + 1 < 2 ^ 32 ∧ count = pCount
  | loads false => pCount = 0 ∧ depth = 0
  | stores false count => pCount = 0 ∧ depth = 0 ∧ count = 0
  | setsOwner => pCount = 1 ∧ depth = 0
  | loadsDown => pCPUID = own ∧ pCount.toNat = depth + 1
  | storesDown count => pCPUID = own ∧ pCount.toNat = depth + 1 ∧ count = pCount
  | tests => pCPUID = own ∧ pCount.toNat = depth
  | frees => pCount = 0 ∧ depth = 0

/-- The others are between calls and outside, or wait for the lock. -/
def Control.waits : Control → Bool
  | ready | spins => true
  | _ => false

structure Inv (m : State C) (owner : Option C) : Prop where
  status : m.lock_status = 0 ↔ owner = none
  unowned : owner = none → m.pCount = 0
  owned (cpu : C) : owner = some cpu →
    (m.control cpu).Owns (getCPUID cpu) m.pCPUID m.pCount (m.depth cpu)
  others (cpu : C) : owner ≠ some cpu → (m.control cpu).waits = true ∧ ¬m.Inside cpu

variable {getCPUID} {m m' : State C} {l : Label C} {owner : Option C} {cpu other : C}

omit [DecidableEq C] in
theorem Inv.initial : Inv getCPUID (State.initial : State C) none :=
  ⟨iff_of_true rfl rfl, fun _ => rfl, nofun, fun _ _ => ⟨rfl, Nat.lt_irrefl 0⟩⟩

omit [DecidableEq C] in
theorem Inv.owner_of_inside (h : Inv getCPUID m owner) (hcpu : m.Inside cpu) :
    owner = some cpu := by
  by_contra hne
  exact (h.others cpu hne).2 hcpu

omit [DecidableEq C] in
/-- A CPU that is in the middle of a call is the owner. -/
theorem Inv.owns (h : Inv getCPUID m owner) {c : Control} (hcontrol : m.control cpu = c)
    (hc : c.waits = false) :
    owner = some cpu ∧ c.Owns (getCPUID cpu) m.pCPUID m.pCount (m.depth cpu) := by
  have howner : owner = some cpu := by
    by_contra hne
    have hwaits := (h.others cpu hne).1
    rw [hcontrol, hc] at hwaits
    cases hwaits
  exact ⟨howner, hcontrol ▸ h.owned cpu howner⟩

omit [DecidableEq C] in
/-- So is one that is inside. -/
theorem Inv.owns_inside (h : Inv getCPUID m owner) {c : Control} (hcontrol : m.control cpu = c)
    (hinside : m.Inside cpu) :
    owner = some cpu ∧ c.Owns (getCPUID cpu) m.pCPUID m.pCount (m.depth cpu) := by
  have howner := h.owner_of_inside hinside
  exact ⟨howner, hcontrol ▸ h.owned cpu howner⟩

/-- A step of the owner that keeps the lock. -/
theorem Inv.keep (h : Inv getCPUID m (some cpu)) {c : Control} {d : Nat}
    (hcontrol : m'.control = Function.update m.control cpu c)
    (hdepth : m'.depth = Function.update m.depth cpu d) (hstatus : m'.lock_status = m.lock_status)
    (howns : c.Owns (getCPUID cpu) m'.pCPUID m'.pCount d) : Inv getCPUID m' (some cpu) where
  status := hstatus ▸ h.status
  unowned := nofun
  owned := by
    rintro _ ⟨⟩
    rwa [hcontrol, hdepth, Function.update_self, Function.update_self]
  others i hi := by
    have hne : i ≠ cpu := fun heq => hi (heq ▸ rfl)
    rw [hcontrol, State.Inside, hdepth, Function.update_of_ne hne, Function.update_of_ne hne]
    exact h.others i hi

/-- Another CPU begins to wait. -/
theorem Inv.wait (h : Inv getCPUID m owner) (hne : owner ≠ some cpu) :
    Inv getCPUID (m.goto cpu .spins) owner where
  status := h.status
  unowned := h.unowned
  owned i hi := by
    have hic : i ≠ cpu := fun heq => hne (heq ▸ hi)
    simp only [State.goto, Function.update_of_ne hic]
    exact h.owned i hi
  others i hi := by
    refine ⟨?_, (h.others i hi).2⟩
    rcases eq_or_ne i cpu with rfl | hic
    · simp only [State.goto, Function.update_self]
      rfl
    · simp only [State.goto, Function.update_of_ne hic]
      exact (h.others i hi).1

theorem Inv.take (h : Inv getCPUID m owner) (hstatus : m.lock_status = 0) :
    Inv getCPUID { m.goto cpu (.loads false) with lock_status := 1 } (some cpu) := by
  obtain rfl := h.status.mp hstatus
  have hdepth : m.depth cpu = 0 := Nat.eq_zero_of_not_pos (h.others cpu nofun).2
  refine ⟨iff_of_false (by decide : (1 : BitVec 8) ≠ 0) nofun, nofun, ?_, fun i hi => ?_⟩
  · rintro _ ⟨⟩
    simp only [State.goto, Function.update_self]
    exact ⟨h.unowned rfl, hdepth⟩
  · have hne : i ≠ cpu := fun heq => hi (heq ▸ rfl)
    simp only [State.goto, Function.update_of_ne hne]
    exact h.others i nofun

theorem Inv.free (h : Inv getCPUID m (some cpu)) (hcontrol : m.control cpu = .frees) :
    Inv getCPUID { m.goto cpu .ready with lock_status := 0 } none := by
  obtain ⟨-, hcount, hdepth⟩ := h.owns hcontrol rfl
  refine ⟨iff_of_true rfl rfl, fun _ => hcount, nofun, fun i _ => ?_⟩
  rcases eq_or_ne i cpu with rfl | hne
  · simp only [State.goto, Function.update_self]
    exact ⟨rfl, Nat.not_lt.mpr hdepth.le⟩
  · simp only [State.goto, Function.update_of_ne hne]
    exact h.others i fun heq => hne (Option.some.inj heq).symm

theorem toNat_succ {count : BitVec 32} {d : Nat} (h : count.toNat = d) (hlt : d + 1 < 2 ^ 32) :
    (count + 1).toNat = d + 1 := by
  bv_omega

theorem toNat_pred {count : BitVec 32} {d : Nat} (h : count.toNat = d + 1) :
    (count - 1).toNat = d := by
  bv_omega

theorem Inv.step (h : Inv getCPUID m owner) (hstep : SoundStep getCPUID m l m') :
    ∃ owner', Inv getCPUID m' owner' := by
  obtain ⟨hstep, hsound⟩ := hstep
  cases hstep with
  | @lockOwned cpu hcontrol hown =>
    obtain ⟨hinside, hwrap⟩ := hsound hown
    obtain ⟨rfl, -, hcount, hpos⟩ := h.owns_inside hcontrol hinside
    have hlt : m.depth cpu + 1 < 2 ^ 32 := by bv_omega
    exact ⟨_, h.keep rfl (Function.update_eq_self ..).symm rfl ⟨hown, hcount, hpos, hlt⟩⟩
  | @lock cpu hcontrol hother =>
    refine ⟨owner, h.wait ?_⟩
    rintro rfl
    have howns := h.owned cpu rfl
    rw [hcontrol] at howns
    exact hother howns.1
  | again => exact ⟨owner, h⟩
  | take _ hstatus => exact ⟨_, h.take hstatus⟩
  | @load cpu owner' hcontrol =>
    cases owner' with
    | true =>
      obtain ⟨rfl, hown, hcount, hpos, hlt⟩ := h.owns hcontrol rfl
      exact ⟨_, h.keep (c := .stores true m.pCount) rfl (Function.update_eq_self ..).symm rfl
        ⟨hown, hcount, hpos, hlt, rfl⟩⟩
    | false =>
      obtain ⟨rfl, hcount, hdepth⟩ := h.owns hcontrol rfl
      exact ⟨_, h.keep (c := .stores false m.pCount) rfl (Function.update_eq_self ..).symm rfl
        ⟨hcount, hdepth, hcount⟩⟩
  | storeOwned hcontrol =>
    obtain ⟨rfl, hown, hcount, -, hlt, rfl⟩ := h.owns hcontrol rfl
    exact ⟨_, h.keep rfl rfl rfl ⟨hown, toNat_succ hcount hlt, Nat.succ_pos _⟩⟩
  | store hcontrol =>
    obtain ⟨rfl, -, hdepth, rfl⟩ := h.owns hcontrol rfl
    exact ⟨_, h.keep (c := .setsOwner) rfl (Function.update_eq_self ..).symm rfl ⟨rfl, hdepth⟩⟩
  | @setOwner cpu hcontrol =>
    obtain ⟨rfl, hcount, hdepth⟩ := h.owns hcontrol rfl
    have hone : m.pCount.toNat = m.depth cpu + 1 := by
      rw [hcount, hdepth]
      rfl
    exact ⟨_, h.keep (c := .ready) rfl rfl rfl ⟨rfl, hone, Nat.succ_pos _⟩⟩
  | unlockOwned hcontrol hinside hown =>
    obtain ⟨rfl, -, hcount, hpos⟩ := h.owns_inside hcontrol hinside
    exact ⟨_, h.keep (c := .loadsDown) rfl rfl rfl
      ⟨hown, hcount.trans (Nat.succ_pred_eq_of_pos hpos).symm⟩⟩
  | unlock hcontrol hinside hother =>
    obtain ⟨-, hown, -⟩ := h.owns_inside hcontrol hinside
    exact absurd hown hother
  | loadDown hcontrol =>
    obtain ⟨rfl, hown, hcount⟩ := h.owns hcontrol rfl
    exact ⟨_, h.keep (c := .storesDown m.pCount) rfl (Function.update_eq_self ..).symm rfl
      ⟨hown, hcount, rfl⟩⟩
  | storeDown hcontrol =>
    obtain ⟨rfl, hown, hcount, rfl⟩ := h.owns hcontrol rfl
    exact ⟨_, h.keep (c := .tests) rfl (Function.update_eq_self ..).symm rfl
      ⟨hown, toNat_pred hcount⟩⟩
  | keep hcontrol hne =>
    obtain ⟨rfl, hown, hcount⟩ := h.owns hcontrol rfl
    have hpos := Nat.pos_of_ne_zero fun hzero => hne (BitVec.eq_of_toNat_eq (hcount.trans hzero))
    exact ⟨_, h.keep (c := .ready) rfl (Function.update_eq_self ..).symm rfl
      ⟨hown, hcount, hpos⟩⟩
  | giveUp hcontrol hzero =>
    obtain ⟨rfl, -, hcount⟩ := h.owns hcontrol rfl
    rw [hzero] at hcount
    exact ⟨_, h.keep (c := .frees) rfl (Function.update_eq_self ..).symm rfl
      ⟨hzero, hcount.symm⟩⟩
  | free hcontrol =>
    obtain ⟨rfl, -⟩ := h.owns hcontrol rfl
    exact ⟨none, h.free hcontrol⟩

omit [DecidableEq C] in
theorem Inv.inside_unique (h : Inv getCPUID m owner) (hi : m.Inside cpu) (hj : m.Inside other) :
    cpu = other :=
  Option.some.inj ((h.owner_of_inside hi).symm.trans (h.owner_of_inside hj))

variable (getCPUID) in
/-- Only one CPU is inside, in all the runs where no CPU outside finds its own number in
`pCPUID`. -/
theorem corelock_exclusive {ls : List (Label C)}
    (h : Run (SoundStep getCPUID) .initial ls m) (hi : m.Inside cpu) (hj : m.Inside other) :
    cpu = other := by
  obtain ⟨owner, hinv⟩ := h.invariant (motive := fun m => ∃ owner, Inv getCPUID m owner)
    ⟨none, .initial⟩ fun ⟨_, h⟩ hstep => h.step hstep
  exact hinv.inside_unique hi hj

/-- CPU 1 enters twice. -/
theorem corelock_exclusive_recursive : ∃ ls, ∃ m : State (Fin 2),
    Run (SoundStep fun cpu => BitVec.ofNat 32 cpu.val) .initial ls m ∧ m.depth 1 = 2 ∧
      ∀ cpu, m.Inside cpu → cpu = 1 := by
  have h : Run (SoundStep fun cpu : Fin 2 => BitVec.ofNat 32 cpu.val) .initial [.lock 1] _ :=
    .single ⟨.lock rfl (by decide), nofun⟩
  have h := h.snoc (l := Label.other 1) ⟨.take rfl rfl, trivial⟩
  have h := h.snoc (l := Label.other 1) ⟨.load rfl, trivial⟩
  have h := h.snoc (l := Label.other 1) ⟨.store rfl, trivial⟩
  have h := h.snoc (l := Label.other 1) ⟨.setOwner rfl, trivial⟩
  have h := h.snoc (l := Label.lock 1) ⟨.lockOwned rfl rfl, fun _ => ⟨by decide, by decide⟩⟩
  have h := h.snoc (l := Label.other 1) ⟨.load rfl, trivial⟩
  have h := h.snoc (l := Label.other 1) ⟨.storeOwned rfl, trivial⟩
  exact ⟨_, _, h, rfl, fun cpu hcpu => corelock_exclusive _ h hcpu (by decide)⟩

/-- CPU 0 finds its number in `pCPUID` before anybody has taken the lock. -/
theorem corelock_lets_two_in : ∃ ls, ∃ m : State (Fin 2),
    Run (Step fun cpu => BitVec.ofNat 32 cpu.val) .initial ls m ∧ m.Inside 0 ∧ m.Inside 1 := by
  have h : Run (Step fun cpu : Fin 2 => BitVec.ofNat 32 cpu.val) .initial [.lock 0] _ :=
    .single (.lockOwned rfl rfl)
  have h := h.snoc (l := Label.other 0) (.load rfl)
  have h := h.snoc (l := Label.other 0) (.storeOwned rfl)
  have h := h.snoc (l := Label.lock 1) (.lock rfl (by decide))
  have h := h.snoc (l := Label.other 1) (.take rfl rfl)
  have h := h.snoc (l := Label.other 1) (.load rfl)
  have h := h.snoc (l := Label.other 1) (.store rfl)
  have h := h.snoc (l := Label.other 1) (.setOwner rfl)
  exact ⟨_, _, h, by decide, by decide⟩

end Corelock

end CyPhOS
