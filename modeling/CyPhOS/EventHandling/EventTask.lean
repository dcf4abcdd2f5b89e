import Mathlib.Data.Fintype.Sum
import Mathlib.Tactic.DeriveFintype

/-! # Events and the tasks that handle them

An `EventTask` is taken from a static pool when an event is raised for one of its subscribers. There
are two pools, one for interrupts; a `Task` is a pointer to an element of one of the two arrays.
-/

namespace CyPhOS

inductive EventType
  | softwareEvent
  | interruptEvent
  | timerEvent
  | dummyCallEvent
  deriving DecidableEq, Repr

inductive TimerEventType
  | oneshot
  | periodic
  deriving DecidableEq, Repr

def cEventTaskPoolSize : Nat := 128

def cInterruptTaskPoolSize : Nat := 8

/-- A pointer to an element of one of the arrays `pEventTasks` and `pInterruptTasks`. -/
inductive Task
  | pEventTasks (i : Fin cEventTaskPoolSize)
  | pInterruptTasks (i : Fin cInterruptTaskPoolSize)
  deriving DecidableEq, Fintype

/-- The fields of a task on top of its links. Stack pointers are indices into the stack pool. -/
structure EventTask (E R : Type) where
  event : Option E
  trigger : Option R
  pTimestamp : UInt64
  pEnqueued : Bool
  mArg : UInt32
  pStackpointer : Option Nat

end CyPhOS
