import CyPhOS.Common.BitManipulation
import CyPhOS.Lib.FieldArray

/-! # The distributor of the interrupt controller

The distributor keeps a bit, a byte or two bits for each interrupt, in banks of words that several
interrupts share. Writing to `GICD_ISENABLERn` and `GICD_ICENABLERn` sets and clears the bits of the
same bank where ones are written, as writing to `GICD_ISPENDRn` and `GICD_ICPENDRn` does; the other
banks are plain memory.

`enabled`, `pending`, `priority`, `target` and `configuration` are what the distributor holds for an
interrupt. Each function of the driver has a lemma that says what it does to these.
-/

namespace CyPhOS

namespace ARMGIC

/-- The registers; the argument is the row, that is the word within the bank. -/
inductive Register
  | GICD_CTLR
  | GICD_TYPER
  | GICD_ISENABLERn (a : Nat)
  | GICD_ICENABLERn (a : Nat)
  | GICD_ISPENDRn (a : Nat)
  | GICD_ICPENDRn (a : Nat)
  | GICD_IPRIORITYRn (a : Nat)
  | GICD_ITARGETSRn (a : Nat)
  | GICD_ICFGRn (a : Nat)
  deriving DecidableEq, Repr

namespace Register

/-- The address behind `GICD_BASE_ADDRESS`, on a platform with banked registers. -/
def address : Register → Nat
  | .GICD_CTLR => 0x000
  | .GICD_TYPER => 0x004
  | .GICD_ISENABLERn a => 0x100 + 0x4 * a
  | .GICD_ICENABLERn a => 0x180 + 0x4 * a
  | .GICD_ISPENDRn a => 0x200 + 0x4 * a
  | .GICD_ICPENDRn a => 0x280 + 0x4 * a
  | .GICD_IPRIORITYRn a => 0x400 + 0x4 * a
  | .GICD_ITARGETSRn a => 0x800 + 0x4 * a
  | .GICD_ICFGRn a => 0xC00 + 0x4 * a

/-- How many interrupts a row of the bank is for. -/
def perRow : Register → Nat
  | .GICD_CTLR | .GICD_TYPER => 1
  | .GICD_ISENABLERn _ | .GICD_ICENABLERn _ | .GICD_ISPENDRn _ | .GICD_ICPENDRn _ => 32
  | .GICD_IPRIORITYRn _ | .GICD_ITARGETSRn _ => 4
  | .GICD_ICFGRn _ => 16

def row : Register → Nat
  | .GICD_CTLR | .GICD_TYPER => 0
  | .GICD_ISENABLERn a | .GICD_ICENABLERn a | .GICD_ISPENDRn a | .GICD_ICPENDRn a
  | .GICD_IPRIORITYRn a | .GICD_ITARGETSRn a | .GICD_ICFGRn a => a

/-- The registers of the 1024 interrupts that a controller can have at most are at different
addresses. -/
theorem address_injective {r r' : Register} (hr : r.row * r.perRow < 1024)
    (hr' : r'.row * r'.perRow < 1024) (h : r.address = r'.address) : r = r' := by
  cases r <;> cases r' <;> simp only [address, row, perRow] at hr hr' h <;>
    first | rfl | omega | (congr 1; omega)

end Register

/-- What the distributor holds; the banks are functions of the row. -/
structure Distributor where
  ctlr : BitVec 32
  typer : BitVec 32
  enable : Nat → BitVec 32
  pend : Nat → BitVec 32
  ipriorityr : Nat → BitVec 32
  itargetsr : Nat → BitVec 32
  icfgr : Nat → BitVec 32

namespace Distributor

variable (d : Distributor) (interrupt : Nat)

/-- `READ_REGISTER` -/
def read : Register → BitVec 32
  | .GICD_CTLR => d.ctlr
  | .GICD_TYPER => d.typer
  | .GICD_ISENABLERn a | .GICD_ICENABLERn a => d.enable a
  | .GICD_ISPENDRn a | .GICD_ICPENDRn a => d.pend a
  | .GICD_IPRIORITYRn a => d.ipriorityr a
  | .GICD_ITARGETSRn a => d.itargetsr a
  | .GICD_ICFGRn a => d.icfgr a

/-- `WRITE_REGISTER` -/
def write (value : BitVec 32) : Register → Distributor
  | .GICD_CTLR => { d with ctlr := value }
  | .GICD_TYPER => d
  | .GICD_ISENABLERn a => { d with enable := Function.update d.enable a (d.enable a ||| value) }
  | .GICD_ICENABLERn a => { d with enable := Function.update d.enable a (d.enable a &&& ~~~value) }
  | .GICD_ISPENDRn a => { d with pend := Function.update d.pend a (d.pend a ||| value) }
  | .GICD_ICPENDRn a => { d with pend := Function.update d.pend a (d.pend a &&& ~~~value) }
  | .GICD_IPRIORITYRn a => { d with ipriorityr := Function.update d.ipriorityr a value }
  | .GICD_ITARGETSRn a => { d with itargetsr := Function.update d.itargetsr a value }
  | .GICD_ICFGRn a => { d with icfgr := Function.update d.icfgr a value }

/-! ## The driver -/

def enableInterrupt : Distributor :=
  let rowNumber := interrupt / 32
  let bitNumber := interrupt % 32
  let regVal := 0x1#32 <<< bitNumber
  d.write regVal (.GICD_ISENABLERn rowNumber)

def disableInterrupt : Distributor :=
  let rowNumber := interrupt / 32
  let bitNumber := interrupt % 32
  let regVal := 0x1#32 <<< bitNumber
  d.write regVal (.GICD_ICENABLERn rowNumber)

def testInterrupt : Distributor :=
  let rowNumber := interrupt / 32
  let bitNumber := interrupt % 32
  let regVal := d.read (.GICD_ISPENDRn rowNumber)
  let regVal := setbit regVal bitNumber true
  d.write regVal (.GICD_ISPENDRn rowNumber)

def configureInterruptTrigger (levelTriggered : Bool) : Distributor :=
  let rowNumber := interrupt / 16
  let bitNumber := interrupt % 16 + 1
  let confRegVal := d.read (.GICD_ICFGRn rowNumber)
  let confRegVal := setbit confRegVal bitNumber !levelTriggered
  d.write confRegVal (.GICD_ICFGRn rowNumber)

def configureInterruptHandling (nton : Bool) : Distributor :=
  let rowNumber := interrupt / 16
  let bitNumber := interrupt % 16
  let confRegVal := d.read (.GICD_ICFGRn rowNumber)
  let confRegVal := setbit confRegVal bitNumber !nton
  d.write confRegVal (.GICD_ICFGRn rowNumber)

def setInterruptTarget (target : BitVec 8) : Distributor :=
  let rowNumber := interrupt / 4
  let bitNumber := interrupt % 4
  let prioMask := target.setWidth 32 <<< (bitNumber * 8)
  let regVal := d.read (.GICD_ITARGETSRn rowNumber)
  let regVal := regVal &&& ~~~(0xFF#32 <<< (bitNumber * 8))
  let regVal := regVal ||| prioMask
  d.write regVal (.GICD_ITARGETSRn rowNumber)

def getInterruptTarget : BitVec 8 :=
  let rowNumber := interrupt / 4
  let bitNumber := interrupt % 4
  let regVal := d.read (.GICD_ITARGETSRn rowNumber)
  let regVal := regVal &&& (0xFF#32 <<< (bitNumber * 8))
  (regVal >>> (bitNumber * 8)).setWidth 8

/-- The mask has four bits, where a priority has eight. -/
def setInterruptPriority (priority : BitVec 8) : Distributor :=
  let rowNumber := interrupt / 4
  let bitNumber := interrupt % 4
  let prioMask := priority.setWidth 32 <<< (bitNumber * 8)
  let regVal := d.read (.GICD_IPRIORITYRn rowNumber)
  let regVal := regVal &&& ~~~(0xF#32 <<< (bitNumber * 8))
  let regVal := regVal ||| prioMask
  d.write regVal (.GICD_IPRIORITYRn rowNumber)

/-- The new value stays in the local variable. -/
def clearPending : Distributor :=
  let rowNumber := interrupt / 32
  let bitNumber := interrupt % 32
  let pendVal := d.read (.GICD_ICPENDRn rowNumber)
  let _pendVal := setbit pendVal bitNumber true
  d

def enableInterruptTarget (target : BitVec 8) : Distributor :=
  let currentTarget := d.getInterruptTarget interrupt
  let currentTarget := currentTarget ||| target
  d.setInterruptTarget interrupt currentTarget

def disableInterruptTarget (target : BitVec 8) : Distributor :=
  let currentTarget := d.getInterruptTarget interrupt
  let currentTarget := currentTarget &&& ~~~target
  d.setInterruptTarget interrupt currentTarget

/-- `for (uint32_t i = lo; i < hi; i++)` -/
def forInterrupts (lo hi : Nat) (body : Distributor → Nat → Distributor) : Distributor :=
  (List.range' lo (hi - lo)).foldl body d

/-- Also returns the new `mNumLines`. -/
def distributorInit : Nat × Distributor :=
  let d := d.write 0x00000000#32 .GICD_CTLR
  let gicd_typer := d.read .GICD_TYPER
  let mNumLines := (0x1F#32 &&& gicd_typer).toNat
  let numInts := (mNumLines + 1) * 32
  let d := d.forInterrupts 32 numInts fun d i =>
    (d.configureInterruptTrigger i true).configureInterruptHandling i false
  let d := d.forInterrupts 32 numInts fun d i => d.setInterruptTarget i 0x0#8
  let d := d.forInterrupts 0 numInts fun d i => d.setInterruptPriority i 0xa0#8
  let d := d.forInterrupts 0 numInts fun d i => d.disableInterrupt i
  let d := d.forInterrupts 0 numInts fun d i => d.clearPending i
  (mNumLines, d)

/-! ## What it holds for an interrupt -/

def enabled : Bool := (d.enable (interrupt / 32)).getLsbD (interrupt % 32)

def pending : Bool := (d.pend (interrupt / 32)).getLsbD (interrupt % 32)

def priority : BitVec 8 := FieldArray.read 4 8 d.ipriorityr interrupt

def target : BitVec 8 := FieldArray.read 4 8 d.itargetsr interrupt

/-- The field of the interrupt in `GICD_ICFGR`. -/
def configuration : BitVec 2 := FieldArray.read 16 2 d.icfgr interrupt

/-- The upper bit of the field. -/
def levelTriggered : Bool := !(d.configuration interrupt).getLsbD 1

variable {d interrupt} {i : Nat}

/-- One bit of a bank of bits. -/
theorem getLsbD_update_bit {words : Nat → BitVec 32} {flag : Bool} {x : BitVec 32}
    (hx : ∀ k < 32, x.getLsbD k =
      if k = interrupt % 32 then flag else (words (interrupt / 32)).getLsbD k) :
    (fun j => (Function.update words (interrupt / 32) x (j / 32)).getLsbD (j % 32)) =
      Function.update (fun j => (words (j / 32)).getLsbD (j % 32)) interrupt flag := by
  funext j
  rw [Function.update_apply, Function.update_apply]
  by_cases hdiv : j / 32 = interrupt / 32
  · rw [if_pos hdiv, hx _ (Nat.mod_lt j (by omega)), hdiv]
    exact if_congr ⟨FieldArray.eq_of_div_mod hdiv, congrArg (· % 32)⟩ rfl rfl
  · rw [if_neg hdiv, if_neg fun h => hdiv (congrArg (· / 32) h)]

theorem enableInterrupt_enabled :
    (d.enableInterrupt interrupt).enabled = Function.update d.enabled interrupt true := by
  refine getLsbD_update_bit fun k _ => ?_
  rw [BitVec.getLsbD_or, getLsbD_one_shiftLeft (Nat.mod_lt _ (by omega))]
  by_cases hk : k = interrupt % 32 <;> simp [hk]

theorem disableInterrupt_enabled :
    (d.disableInterrupt interrupt).enabled = Function.update d.enabled interrupt false := by
  refine getLsbD_update_bit fun k hk => ?_
  rw [BitVec.getLsbD_and, BitVec.getLsbD_not, getLsbD_one_shiftLeft (Nat.mod_lt _ (by omega))]
  by_cases hk' : k = interrupt % 32 <;> simp [hk, hk']

theorem testInterrupt_pending :
    (d.testInterrupt interrupt).pending = Function.update d.pending interrupt true := by
  refine getLsbD_update_bit fun k _ => ?_
  rw [BitVec.getLsbD_or, getLsbD_setbit (Nat.mod_lt _ (by omega))]
  by_cases hk : k = interrupt % 32 <;> simp [hk, read]

theorem setInterruptTarget_eq {target : BitVec 8} : d.setInterruptTarget interrupt target =
    { d with
      itargetsr := FieldArray.modify 4 d.itargetsr interrupt
        (BitField.insert (8 * (interrupt % 4)) 0xFF#8 target) } := by
  rw [Nat.mul_comm]
  rfl

theorem setInterruptPriority_eq {priority : BitVec 8} : d.setInterruptPriority interrupt priority =
    { d with
      ipriorityr := FieldArray.modify 4 d.ipriorityr interrupt
        (BitField.insert (8 * (interrupt % 4)) 0xF#8 priority) } := by
  rw [Nat.mul_comm]
  rfl

theorem setInterruptTarget_target {target : BitVec 8} :
    (d.setInterruptTarget interrupt target).target =
      Function.update d.target interrupt target := by
  have hacts : FieldArray.ActsOn (w := 32) 4 8 (interrupt % 4)
      (BitField.insert (8 * (interrupt % 4)) 0xFF#8 target)
      fun b => (b &&& ~~~0xFF#8) ||| target :=
    FieldArray.actsOn_insert (by decide) (Nat.mod_lt _ (by decide))
  rw [setInterruptTarget_eq]
  refine (hacts.read_modify (by decide)).trans ?_
  rw [show ~~~0xFF#8 = 0#8 from rfl, BitVec.and_zero, BitVec.zero_or]
  rfl

/-- The upper half of the old value is not cleared. -/
theorem setInterruptPriority_priority {priority : BitVec 8} :
    (d.setInterruptPriority interrupt priority).priority =
      Function.update d.priority interrupt ((d.priority interrupt &&& 0xF0#8) ||| priority) := by
  have hacts : FieldArray.ActsOn (w := 32) 4 8 (interrupt % 4)
      (BitField.insert (8 * (interrupt % 4)) 0xF#8 priority)
      fun b => (b &&& ~~~0xF#8) ||| priority :=
    FieldArray.actsOn_insert (by decide) (Nat.mod_lt _ (by decide))
  rw [setInterruptPriority_eq]
  exact hacts.read_modify (by decide)

theorem getInterruptTarget_eq : d.getInterruptTarget interrupt = d.target interrupt := by
  apply BitVec.eq_of_getLsbD_eq
  intro k hk
  have hlt : interrupt % 4 < 4 := Nat.mod_lt _ (by decide)
  have hmask : (0xFF#32).getLsbD k = true := by
    have : ∀ k : Fin 8, (0xFF#32).getLsbD k.val = true := by decide
    exact this ⟨k, hk⟩
  rw [target, FieldArray.getLsbD_read hk, getInterruptTarget, read, BitVec.getLsbD_setWidth,
    BitVec.getLsbD_ushiftRight, BitVec.getLsbD_and, BitVec.getLsbD_shiftLeft,
    Nat.add_sub_cancel_left, hmask, Nat.mul_comm 8]
  simp [hk, show interrupt % 4 * 8 + k < 32 by omega]

theorem enableInterruptTarget_target {target : BitVec 8} :
    (d.enableInterruptTarget interrupt target).target =
      Function.update d.target interrupt (d.target interrupt ||| target) := by
  rw [enableInterruptTarget, setInterruptTarget_target, getInterruptTarget_eq]

theorem disableInterruptTarget_target {target : BitVec 8} :
    (d.disableInterruptTarget interrupt target).target =
      Function.update d.target interrupt (d.target interrupt &&& ~~~target) := by
  rw [disableInterruptTarget, setInterruptTarget_target, getInterruptTarget_eq]

end Distributor

end ARMGIC

end CyPhOS
