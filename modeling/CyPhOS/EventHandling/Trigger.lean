import CyPhOS.Common.Exec
import Mathlib.Data.List.Basic

/-! # Triggers and their OSC sets

A `Trigger` names the OSC that handles an event and, in `pDeps`, the OSCs the handler needs besides.
`pDeps` points into a static array that ends at the first null pointer; `DepArray` is such an array
with the promise that there is one. The OSCs of a trigger are `oscSet`: the destination and the
dependencies up to the terminator.

The functions of the scheduler read triggers through their tasks. They take a parameter `trigger`,
the trigger that `task->trigger` points to, and do not return if it is a null pointer.
-/

namespace CyPhOS

/-- A null terminated array of OSC pointers. What lies behind the terminator is never read. -/
structure DepArray (O : Type) where
  entries : List (Option O)
  terminated : none ∈ entries

/-- The terminator alone is a null terminated array. -/
theorem DepArray.none_mem : (none : Option O) ∈ [none] := List.mem_singleton_self none

/-- `cpu_affinity_t` and `priority_t` are unsigned integers; nothing computes with them. -/
structure Trigger (O : Type) where
  pDestinationOSC : Option O
  pDeps : DepArray O
  pPriority : Nat
  pAffinity : Nat := 0xFF

namespace Trigger

def cInvalid_Priority : Nat := 0x0

variable {O : Type}

/-- The entries of a dependency array in front of its terminator. -/
def depSet : List (Option O) → List O
  | some dep :: rest => dep :: depSet rest
  | _ => []

/-- The OSCs that a run of the trigger function uses. -/
def oscSet (trigger : Trigger O) : List O :=
  trigger.pDestinationOSC.toList ++ depSet trigger.pDeps.entries

theorem mem_oscSet {trigger : Trigger O} {osc : O} :
    osc ∈ trigger.oscSet ↔
      trigger.pDestinationOSC = some osc ∨ osc ∈ depSet trigger.pDeps.entries := by
  simp [oscSet]

end Trigger

variable {T O : Type} {trigger : T → Option (Trigger O)} {task : T}

/-- `task->trigger`, dereferenced. -/
def derefTrigger (trigger : T → Option (Trigger O)) (task : T) : Exec (Trigger O) :=
  match trigger task with
  | some tr => .ok tr
  | none => .error .nullDereference

theorem derefTrigger_eq_ok {tr : Trigger O} :
    derefTrigger trigger task = .ok tr ↔ trigger task = some tr := by
  unfold derefTrigger
  cases trigger task <;> simp

end CyPhOS
