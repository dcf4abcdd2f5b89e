import CyPhOS.ARMv7.ARMGIC

/-! # What the setters of the interrupt controller do to other interrupts

The setters of targets and priorities find the byte of their interrupt, so that the bytes of the
others stay as they are. But priorities are written with a mask of four bits, and the upper half of
the old value stays (`priorities_and_targets_iff`).

The configuration of an interrupt has two bits, and the driver counts one bit for each interrupt:
only interrupts at the start of a row find their field (`configuration_iff`).
-/

namespace CyPhOS

namespace ARMGIC

namespace Distributor

variable {d : Distributor} {i j : Nat}

/-! ## Configurations -/

/-- The setter has set bit `k` of the field of the interrupt and left the other fields alone. -/
def Configures (d d' : Distributor) (interrupt k : Nat) (value : Bool) : Prop :=
  (d'.configuration interrupt).getLsbD k = value ∧
    ∀ other ≠ interrupt, d'.configuration other = d.configuration other

/-- Setting bit `n` of the row of an interrupt. -/
def setRowBit (d : Distributor) (interrupt n : Nat) (value : Bool) : Distributor :=
  { d with
    icfgr := FieldArray.modify 16 d.icfgr interrupt fun confRegVal => setbit confRegVal n value }

theorem setRowBit_row {n : Nat} {value : Bool} :
    (d.setRowBit i n value).icfgr (i / 16) = setbit (d.icfgr (i / 16)) n value := by
  simp only [setRowBit, FieldArray.modify_self]

theorem setRowBit_of_ne {n m : Nat} {value : Bool} (h : m ≠ i / 16) :
    (d.setRowBit i n value).icfgr m = d.icfgr m := by
  simp only [setRowBit, FieldArray.modify_of_ne h]

theorem configureInterruptTrigger_eq {levelTriggered : Bool} :
    d.configureInterruptTrigger i levelTriggered = d.setRowBit i (i % 16 + 1) !levelTriggered :=
  rfl

theorem configureInterruptHandling_eq {nton : Bool} :
    d.configureInterruptHandling i nton = d.setRowBit i (i % 16) !nton :=
  rfl

theorem configuration_bit {k : Nat} (hk : k < 2) :
    (d.configuration i).getLsbD k = (d.icfgr (i / 16)).getLsbD (2 * (i % 16) + k) :=
  FieldArray.getLsbD_read hk

theorem configuration_setRowBit {n : Nat} {value : Bool} (hn : n < 32)
    (h : j / 16 ≠ i / 16 ∨ n / 2 ≠ j % 16) :
    (d.setRowBit i n value).configuration j = d.configuration j := by
  by_cases hdiv : j / 16 = i / 16
  · have hout : n < 2 * (j % 16) ∨ 2 * (j % 16) + 2 ≤ n := by omega
    rw [configuration, configuration, FieldArray.read, FieldArray.read, hdiv, setRowBit_row]
    exact get_setbit_of_disjoint hn hout
  · rw [configuration, configuration, FieldArray.read, FieldArray.read, setRowBit_of_ne hdiv]

/-- Setting the right bit configures the interrupt. Setting another one does only if the right bit
has the value already and no other interrupt's bit changes. -/
theorem configures_setRowBit_iff {n k : Nat} {value : Bool} (hn : n < 32) (hk : k < 2) :
    Configures d (d.setRowBit i n value) i k value ↔ n = 2 * (i % 16) + k ∨
      (d.configuration i).getLsbD k = value ∧
        (n / 2 = i % 16 ∨ (d.icfgr (i / 16)).getLsbD n = value) := by
  have hbit : ((d.setRowBit i n value).configuration i).getLsbD k =
      if 2 * (i % 16) + k = n then value else (d.configuration i).getLsbD k := by
    rw [configuration_bit hk, configuration_bit hk, setRowBit_row, getLsbD_setbit hn]
  rw [Configures, hbit]
  by_cases hright : 2 * (i % 16) + k = n
  · refine iff_of_true ⟨if_pos hright, fun j hj => ?_⟩ (.inl hright.symm)
    refine configuration_setRowBit hn ?_
    by_contra h
    push Not at h
    exact hj (FieldArray.eq_of_div_mod h.1 (by omega))
  · rw [if_neg hright]
    constructor
    · rintro ⟨hvalue, hother⟩
      refine .inr ⟨hvalue, or_iff_not_imp_left.mpr fun hfield => ?_⟩
      -- the interrupt whose field has the bit
      have hdiv : (16 * (i / 16) + n / 2) / 16 = i / 16 := by omega
      have hmod : (16 * (i / 16) + n / 2) % 16 = n / 2 := by omega
      have hsame := hother (16 * (i / 16) + n / 2) (by omega)
      have hk' : n % 2 < 2 := Nat.mod_lt _ (by omega)
      have hn' : 2 * (n / 2) + n % 2 = n := Nat.div_add_mod n 2
      have hbits : ((d.setRowBit i n value).configuration (16 * (i / 16) + n / 2)).getLsbD (n % 2) =
          (d.configuration (16 * (i / 16) + n / 2)).getLsbD (n % 2) := by rw [hsame]
      rw [configuration_bit hk', configuration_bit hk', hdiv, hmod, hn', setRowBit_row,
        getLsbD_setbit hn, if_pos rfl] at hbits
      exact hbits.symm
    · rintro (h | ⟨hvalue, hfield | hsame⟩)
      · exact absurd h.symm hright
      · refine ⟨hvalue, fun j hj => configuration_setRowBit hn ?_⟩
        by_contra h
        push Not at h
        exact hj (FieldArray.eq_of_div_mod h.1 (by omega))
      · refine ⟨hvalue, fun j _ => ?_⟩
        have hnone : setbit (d.icfgr (i / 16)) n value = d.icfgr (i / 16) := by
          apply BitVec.eq_of_getLsbD_eq
          intro m _
          rw [getLsbD_setbit hn]
          split
          · next heq => rw [heq, hsame]
          · rfl
        have hd : d.setRowBit i n value = d := by
          rw [setRowBit, FieldArray.modify, hnone, Function.update_eq_self]
        rw [hd]

/-- A call that configures an interrupt. -/
inductive ConfigureOp
  | configureInterruptTrigger (levelTriggered : Bool)
  | configureInterruptHandling (nton : Bool)
  deriving DecidableEq, Repr

def configure (d : Distributor) (interrupt : Nat) : ConfigureOp → Distributor
  | .configureInterruptTrigger levelTriggered =>
    d.configureInterruptTrigger interrupt levelTriggered
  | .configureInterruptHandling nton => d.configureInterruptHandling interrupt nton

/-- The trigger of an interrupt and the handling of the next one in the row, to different values. -/
def Collide (i j : Nat) : ConfigureOp → ConfigureOp → Prop
  | .configureInterruptTrigger levelTriggered, .configureInterruptHandling nton =>
    i / 16 = j / 16 ∧ j % 16 = i % 16 + 1 ∧ levelTriggered ≠ nton
  | .configureInterruptHandling nton, .configureInterruptTrigger levelTriggered =>
    i / 16 = j / 16 ∧ i % 16 = j % 16 + 1 ∧ levelTriggered ≠ nton
  | _, _ => False

theorem setRowBit_comm_iff {n m : Nat} {a b : Bool} (hn : n < 32) (hm : m < 32) :
    (d.setRowBit i n a).setRowBit j m b = (d.setRowBit j m b).setRowBit i n a ↔
      ¬ (i / 16 = j / 16 ∧ n = m ∧ a ≠ b) := by
  by_cases hdiv : i / 16 = j / 16
  · have hrow : ∀ (i j n m : Nat) (a b : Bool), i / 16 = j / 16 →
        (d.setRowBit i n a).setRowBit j m b =
          { d with
            icfgr := Function.update d.icfgr (i / 16)
              (setbit (setbit (d.icfgr (i / 16)) n a) m b) } := by
      intro i j n m a b hdiv
      simp only [setRowBit, FieldArray.modify, hdiv, Function.update_self, Function.update_idem]
    rw [hrow i j n m a b hdiv, hrow j i m n b a hdiv.symm, ← hdiv]
    constructor
    · rintro heq ⟨-, rfl, hne⟩
      have hword := congrFun (congrArg icfgr heq) (i / 16)
      simp only [Function.update_self] at hword
      have hbit := congrArg (fun x => BitVec.getLsbD x n) hword
      simp only [getLsbD_setbit hn, if_true] at hbit
      exact hne hbit.symm
    · intro h
      rw [setbit_comm hn hm]
      by_cases hnm : n = m
      · exact .inr (by_contra fun hne => h ⟨rfl, hnm, hne⟩)
      · exact .inl hnm
  · refine iff_of_true ?_ fun h => hdiv h.1
    simp only [setRowBit, FieldArray.modify, Function.update_of_ne hdiv,
      Function.update_of_ne (Ne.symm hdiv), Function.update_comm hdiv]

/-- Configurations of different interrupts commute unless they collide. -/
theorem configure_comm_iff {a b : ConfigureOp} (hij : i ≠ j) :
    (d.configure i a).configure j b = (d.configure j b).configure i a ↔ ¬ Collide i j a b := by
  have hi : i % 16 + 1 < 32 := by omega
  have hj : j % 16 + 1 < 32 := by omega
  have hsame : i / 16 = j / 16 → i % 16 ≠ j % 16 :=
    fun hdiv hmod => hij (FieldArray.eq_of_div_mod hdiv hmod)
  cases a <;> cases b <;>
    simp only [configure, configureInterruptTrigger_eq, configureInterruptHandling_eq, Collide]
  · rw [setRowBit_comm_iff hi hj]
    exact iff_of_true (fun h => hsame h.1 (Nat.add_right_cancel h.2.1)) id
  · next levelTriggered nton =>
    rw [setRowBit_comm_iff hi (Nat.lt_of_succ_lt hj), eq_comm (b := j % 16), Ne,
      Bool.not_inj_iff]
  · next nton levelTriggered =>
    rw [setRowBit_comm_iff (Nat.lt_of_succ_lt hi) hj, Ne, Bool.not_inj_iff,
      eq_comm (a := nton)]
  · rw [setRowBit_comm_iff (Nat.lt_of_succ_lt hi) (Nat.lt_of_succ_lt hj)]
    exact iff_of_true (fun h => hsame h.1 h.2.1) id

/-- When the configuration of an interrupt sets its bit and leaves the other interrupts alone, and
when configurations of two interrupts commute. -/
theorem configuration_iff (d : Distributor) :
    (∀ i levelTriggered,
      Configures d (d.configureInterruptTrigger i levelTriggered) i 1 (!levelTriggered) ↔
        i % 16 = 0 ∨ (d.configuration i).getLsbD 1 = !levelTriggered ∧
          (i % 16 = 1 ∨ (d.icfgr (i / 16)).getLsbD (i % 16 + 1) = !levelTriggered)) ∧
    (∀ i nton, Configures d (d.configureInterruptHandling i nton) i 0 (!nton) ↔
        i % 16 = 0 ∨ (d.configuration i).getLsbD 0 = !nton ∧
          (d.icfgr (i / 16)).getLsbD (i % 16) = !nton) ∧
    ∀ i j a b, i ≠ j →
      ((d.configure i a).configure j b = (d.configure j b).configure i a ↔ ¬ Collide i j a b) := by
  refine ⟨fun i levelTriggered => ?_, fun i nton => ?_, fun i j a b hij => configure_comm_iff hij⟩
  · rw [configureInterruptTrigger_eq, configures_setRowBit_iff (by omega) (by decide)]
    have hfirst : i % 16 + 1 = 2 * (i % 16) + 1 ↔ i % 16 = 0 := by omega
    have hsecond : (i % 16 + 1) / 2 = i % 16 ↔ i % 16 = 0 ∨ i % 16 = 1 := by omega
    rw [hfirst, hsecond]
    tauto
  · rw [configureInterruptHandling_eq, configures_setRowBit_iff (by omega) (by decide)]
    have hfirst : i % 16 = 2 * (i % 16) + 0 ↔ i % 16 = 0 := by omega
    have hsecond : i % 16 / 2 = i % 16 ↔ i % 16 = 0 := by omega
    rw [hfirst, hsecond]
    tauto

/-- The distributor with zeroed registers. -/
def zeroed : Distributor where
  ctlr := 0
  typer := 0
  enable _ := 0
  pend _ := 0
  ipriorityr _ := 0
  itargetsr _ := 0
  icfgr _ := 0

/-- Interrupt 34, set to edge-triggered, stays level-triggered, and interrupt 33 becomes
edge-triggered. -/
theorem configureInterruptTrigger_misses :
    ¬ ∀ (d : Distributor) i levelTriggered,
      Configures d (d.configureInterruptTrigger i levelTriggered) i 1 !levelTriggered := by
  intro h
  have hbit := (h zeroed 34 false).1
  revert hbit
  decide

/-! ## Priorities and targets -/

/-- A call that sets the priority or the targets of an interrupt. -/
inductive SetOp
  | setInterruptPriority (priority : BitVec 8)
  | setInterruptTarget (target : BitVec 8)
  | enableInterruptTarget (target : BitVec 8)
  | disableInterruptTarget (target : BitVec 8)
  deriving DecidableEq, Repr

def apply (d : Distributor) : Nat × SetOp → Distributor
  | (interrupt, .setInterruptPriority priority) => d.setInterruptPriority interrupt priority
  | (interrupt, .setInterruptTarget target) => d.setInterruptTarget interrupt target
  | (interrupt, .enableInterruptTarget target) => d.enableInterruptTarget interrupt target
  | (interrupt, .disableInterruptTarget target) => d.disableInterruptTarget interrupt target

/-- The priorities that the calls set for an interrupt. -/
def priorities (interrupt : Nat) (ops : List (Nat × SetOp)) : List (BitVec 8) :=
  ops.filterMap fun
    | (i, .setInterruptPriority priority) => if i = interrupt then some priority else none
    | _ => none

/-- What a call makes of a target byte. -/
def SetOp.target : SetOp → BitVec 8 → BitVec 8
  | .setInterruptPriority _, old => old
  | .setInterruptTarget target, _ => target
  | .enableInterruptTarget target, old => old ||| target
  | .disableInterruptTarget target, old => old &&& ~~~target

/-- What the calls make of the target byte of an interrupt. -/
def targets (interrupt : Nat) (old : BitVec 8) (ops : List (Nat × SetOp)) : BitVec 8 :=
  (ops.filter fun op => op.1 = interrupt).foldl (fun old op => op.2.target old) old

/-- Every interrupt has the priority that was set last and the targets that its own calls leave, and
the others have kept their bytes. -/
structure SetsExactly (d d' : Distributor) (ops : List (Nat × SetOp)) : Prop where
  priority : ∀ i priority, (priorities i ops).getLast? = some priority → d'.priority i = priority
  target : ∀ i, d'.target i = targets i (d.target i) ops
  frame : ∀ i, (∀ op, (i, op) ∉ ops) → d'.priority i = d.priority i ∧ d'.target i = d.target i

/-- The upper half of `p` has no bit that `last` has not. -/
def UpperWithin (p last : BitVec 8) : Prop := p &&& 0xF0#8 &&& ~~~last = 0#8

instance {p last : BitVec 8} : Decidable (UpperWithin p last) :=
  inferInstanceAs (Decidable (_ = _))

theorem priorities_cons {p : BitVec 8} {ops : List (Nat × SetOp)} :
    priorities i ((j, .setInterruptPriority p) :: ops) =
      if j = i then p :: priorities i ops else priorities i ops := by
  rw [priorities, List.filterMap_cons]
  by_cases hij : j = i
  · simp only [if_pos hij]
    rfl
  · simp only [if_neg hij]
    rfl

/-- The priority of an interrupt gathers the upper halves of all that are set for it. -/
theorem priority_foldl {ops : List (Nat × SetOp)} : (ops.foldl apply d).priority i =
    (priorities i ops).foldl (fun b p => (b &&& 0xF0#8) ||| p) (d.priority i) := by
  induction ops generalizing d with
  | nil => rfl
  | cons op ops ih =>
    obtain ⟨j, op⟩ := op
    rw [List.foldl_cons, ih]
    cases op with
    | setInterruptPriority p =>
      rw [apply, setInterruptPriority_priority, Function.update_apply, priorities_cons]
      by_cases hij : i = j
      · rw [if_pos hij, if_pos hij.symm, hij, List.foldl_cons]
      · rw [if_neg hij, if_neg (Ne.symm hij)]
    | setInterruptTarget | enableInterruptTarget | disableInterruptTarget => rfl

theorem target_apply {op : Nat × SetOp} :
    (d.apply op).target = Function.update d.target op.1 (op.2.target (d.target op.1)) := by
  obtain ⟨j, op⟩ := op
  cases op with
  | setInterruptPriority => exact (Function.update_eq_self j d.target).symm
  | setInterruptTarget => exact setInterruptTarget_target
  | enableInterruptTarget => exact enableInterruptTarget_target
  | disableInterruptTarget => exact disableInterruptTarget_target

theorem target_foldl {ops : List (Nat × SetOp)} :
    (ops.foldl apply d).target i = targets i (d.target i) ops := by
  induction ops generalizing d with
  | nil => rfl
  | cons op ops ih =>
    rw [List.foldl_cons, ih, target_apply, Function.update_apply, targets, targets,
      List.filter_cons]
    by_cases hij : i = op.1
    · rw [if_pos hij, if_pos (by simpa using hij.symm), List.foldl_cons, hij]
    · rw [if_neg hij, if_neg (by simpa using Ne.symm hij)]

/-- Which sequences of calls set priorities and targets exactly. -/
theorem priorities_and_targets_iff (d : Distributor) (ops : List (Nat × SetOp)) :
    SetsExactly d (ops.foldl apply d) ops ↔
      ∀ i priority, (priorities i ops).getLast? = some priority →
        ∀ p ∈ d.priority i :: priorities i ops, UpperWithin p priority := by
  have hlast : ∀ i priority, (priorities i ops).getLast? = some priority →
      ((ops.foldl apply d).priority i = priority ↔
        ∀ p ∈ d.priority i :: priorities i ops, UpperWithin p priority) := by
    intro i priority h
    rw [priority_foldl]
    exact BitField.foldl_eq_last_iff h
  have hframe : ∀ i, (∀ op, (i, op) ∉ ops) →
      (ops.foldl apply d).priority i = d.priority i ∧
        (ops.foldl apply d).target i = d.target i := by
    intro i hi
    have hnone : priorities i ops = [] := by
      refine List.filterMap_eq_nil_iff.mpr fun op hop => ?_
      obtain ⟨j, op⟩ := op
      cases op with
      | setInterruptPriority => exact if_neg fun hij => hi _ (hij ▸ hop)
      | setInterruptTarget | enableInterruptTarget | disableInterruptTarget => rfl
    have hempty : (ops.filter fun op => op.1 = i) = [] := by
      refine List.filter_eq_nil_iff.mpr fun op hop => ?_
      simpa using fun hij : op.1 = i => hi op.2 (hij ▸ hop)
    rw [priority_foldl, hnone, target_foldl, targets, hempty]
    exact ⟨rfl, rfl⟩
  exact ⟨fun h i priority hi => (hlast i priority hi).mp (h.priority i priority hi),
    fun h => ⟨fun i priority hi => (hlast i priority hi).mpr (h i priority hi),
      fun _ => target_foldl, hframe⟩⟩

/-- A priority of `0x50` over one of `0xa0` gives `0xf0`. -/
theorem setInterruptPriority_merges :
    ¬ ∀ (d : Distributor) (ops : List (Nat × SetOp)), SetsExactly d (ops.foldl apply d) ops := by
  intro h
  have hpriority := (h zeroed
    [(40, .setInterruptPriority 0xa0#8), (40, .setInterruptPriority 0x50#8)]).priority 40 0x50#8 rfl
  revert hpriority
  decide

end Distributor

end ARMGIC

end CyPhOS
