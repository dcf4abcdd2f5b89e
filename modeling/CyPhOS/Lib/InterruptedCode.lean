import CyPhOS.Lib.RegisterStack
import CyPhOS.Lib.Run
import Mathlib.Data.Set.Basic
import Mathlib.Logic.Function.Iterate

/-! # Code that is interrupted

Code runs on a machine step by step. It uses some of the registers and some of the words of the memory;
which words may depend on the registers, as it does for a stack. Between any two steps it may be
interrupted. If the interruptions leave what the code uses, it gets where it would have got without
them (`Code.run_interrupted`).
-/

namespace RegisterStack

open Transition

variable {R κ : Type*} {w : Nat}

/-- What code uses of a machine. -/
structure Uses (R : Type*) (w : Nat) where
  registers : Set R
  words : (R → BitVec w) → Set (BitVec w)
  words_congr {regs regs'} : (∀ r ∈ registers, regs' r = regs r) → words regs' = words regs

/-- The code finds the same in two machines. -/
structure Uses.Agree (u : Uses R w) (m m' : Machine R w) : Prop where
  regs : ∀ r ∈ u.registers, m'.regs r = m.regs r
  mem : ∀ a ∈ u.words m.regs, m'.mem a = m.mem a

structure Code (R : Type*) (w : Nat) extends Uses R w where
  step : Machine R w → Machine R w
  step_agree {m m'} : toUses.Agree m m' → toUses.Agree (step m) (step m')

section
variable {u : Uses R w} {m m' m'' : Machine R w}

theorem Uses.Agree.refl : u.Agree m m := ⟨fun _ _ => rfl, fun _ _ => rfl⟩

theorem Uses.Agree.trans (h : u.Agree m m') (h' : u.Agree m' m'') : u.Agree m m'' where
  regs r hr := (h'.regs r hr).trans (h.regs r hr)
  mem a ha := by
    have ha' : a ∈ u.words m'.regs := (u.words_congr h.regs).symm ▸ ha
    exact (h'.mem a ha').trans (h.mem a ha)

end

/-- The code makes a step, or it is interrupted. -/
inductive Code.Step (c : Code R w) (interruption : Machine R w → κ → Machine R w → Prop) :
    Machine R w → Option κ → Machine R w → Prop
  | step {m} : c.Step interruption m none (c.step m)
  | interruption {m k m'} : interruption m k m' → c.Step interruption m (some k) m'

/-- However often the code is interrupted, it gets as far as its own steps bring it. -/
theorem Code.run_interrupted {c : Code R w} {interruption : Machine R w → κ → Machine R w → Prop}
    {m m' : Machine R w} {ls : List (Option κ)} (h : Run (c.Step interruption) m ls m')
    (hleaves : ∀ {i m₁ k m₂}, c.Agree (c.step^[i] m) m₁ → interruption m₁ k m₂ → c.Agree m₁ m₂) :
    c.Agree (c.step^[ls.countP Option.isNone] m) m' := by
  induction h with
  | nil => exact .refl
  | snoc _ hstep ih =>
    rw [List.countP_append]
    cases hstep with
    | step =>
      have hone : ([none] : List (Option κ)).countP Option.isNone = 1 := rfl
      rw [hone, Function.iterate_succ_apply']
      exact c.step_agree ih
    | interruption hk => exact ih.trans (hleaves ih hk)

end RegisterStack
