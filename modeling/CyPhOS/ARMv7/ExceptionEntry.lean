import CyPhOS.Lib.InterruptedCode
import Mathlib.Algebra.Group.Nat.Defs
import Mathlib.Data.List.GetD

/-! # The exception entries of ARMv7

The CPU takes an exception in a mode that has a stack pointer and a link register of its own. The
first jump table leads to the handler of the exception. That of the interrupts saves the registers on
the stack of its mode and restores them: code in another mode does not notice it (`irqs_transparent`).
The others restart the system, after they have printed the registers: `printCrashContext_iff` says
which of them are those of the code that failed.

The machine has the general registers; those of the floating point unit are not saved.
-/

namespace CyPhOS

open RegisterStack Transition

namespace ARMv7

/-! ## Instructions -/

/-- The modes of the system code and of the exceptions. -/
inductive Mode
  | system | irq | supervisor | abort | undefined
  deriving DecidableEq

/-- The registers that the modes share, and those that a mode has for itself. -/
inductive Register
  | r (i : Fin 13)
  | sp (mode : Mode) | lr (mode : Mode) | spsr (mode : Mode)
  | cpsr | pc
  deriving DecidableEq

abbrev Machine := RegisterStack.Machine Register 32

def CPSR_I_BIT : BitVec 32 := 1#32 <<< 7

def CPSR_F_BIT : BitVec 32 := 1#32 <<< 6

/-- `CPU_MODE_SYS` and so on. -/
def Mode.bits : Mode → BitVec 32
  | .system => 0x1F#32
  | .irq => 0x12#32
  | .supervisor => 0x13#32
  | .abort => 0x17#32
  | .undefined => 0x1B#32

/-- The mode that a program status stands for; the user mode has the registers of the system mode. -/
def Mode.of (cpsr : BitVec 32) : Mode :=
  if cpsr &&& 0x1F#32 = Mode.irq.bits then .irq
  else if cpsr &&& 0x1F#32 = Mode.supervisor.bits then .supervisor
  else if cpsr &&& 0x1F#32 = Mode.abort.bits then .abort
  else if cpsr &&& 0x1F#32 = Mode.undefined.bits then .undefined
  else .system

inductive Operand
  | r (i : Fin 13)
  | sp | lr

def Operand.register (mode : Mode) : Operand → Register
  | .r i => .r i
  | .sp => .sp mode
  | .lr => .lr mode

/-- `stmfd` and `ldmfd` write the stack pointer back; `ldmfd` also loads the program counter, and the
program status with it. -/
inductive Instruction
  | sub (n : BitVec 32) (rd : Operand)
  | mov (rd rn : Operand)
  | msr (control : BitVec 32)
  | stmfd (rs : List Operand)
  | ldmfd (rs : List Operand)
  | call

/-- What an instruction does in a mode. `callee` is what happens from a call to the return from it. -/
def execIn (callee : Machine → Machine) (mode : Mode) (m : Machine) : Instruction → Machine
  | .sub n rd => m.set (rd.register mode) (m.regs (rd.register mode) - n)
  | .mov rd rn => m.set (rd.register mode) (m.regs (rn.register mode))
  | .msr control => m.set .cpsr (m.regs .cpsr &&& ~~~0xFF#32 ||| control)
  -- the register with the lowest number is in the lowest word
  | .stmfd rs => pushes 4 (.sp mode) m (rs.map (Operand.register mode)).reverse
  | .ldmfd rs =>
    let m := pop 4 (.sp mode) (pops 4 (.sp mode) m (rs.map (Operand.register mode))) .pc
    m.set .cpsr (m.regs (.spsr mode))
  | .call => callee m

def exec (callee : Machine → Machine) (m : Machine) (i : Instruction) : Machine :=
  execIn callee (Mode.of (m.regs .cpsr)) m i

def run (callee : Machine → Machine) (m : Machine) (is : List Instruction) : Machine :=
  is.foldl (exec callee) m

/-! ## The exceptions -/

/-- The exceptions whose entries are modelled: those for the hypervisor and the fast interrupts switch
to the mode of the hypervisor. -/
inductive Exception
  | undefinedInstruction | supervisorCall | prefetchAbort | dataAbort | irq
  deriving DecidableEq

namespace Exception

def mode : Exception → Mode
  | undefinedInstruction => .undefined
  | supervisorCall => .supervisor
  | prefetchAbort | dataAbort => .abort
  | irq => .irq

/-- The index in the jump tables. -/
def index : Exception → Nat
  | undefinedInstruction => 1
  | supervisorCall => 2
  | prefetchAbort => 3
  | dataAbort => 4
  | irq => 6

/-- What the CPU adds to the address of the instruction, which is the one that failed or, for an
interrupt, the one that comes next. The code is in ARM state. -/
def linkOffset : Exception → BitVec 32
  | dataAbort => 8#32
  | _ => 4#32

/-- What the CPU masks. -/
def masks : Exception → BitVec 32
  | undefinedInstruction | supervisorCall => CPSR_I_BIT
  | _ => CPSR_I_BIT ||| 1#32 <<< 8

/-- The status in the handler: the bits of the mode, T, E, J and those of IT are replaced. -/
def status (e : Exception) (cpsr : BitVec 32) : BitVec 32 :=
  cpsr &&& ~~~0x0700FE3F#32 ||| (e.mode.bits ||| e.masks)

end Exception

/-- The CPU takes an exception. -/
def deliver (first_jump_table_start : BitVec 32) (e : Exception) (m : Machine) : Machine :=
  let m' := (m.set (.lr e.mode) (m.regs .pc + e.linkOffset)).set (.spsr e.mode) (m.regs .cpsr)
  (m'.set .cpsr (e.status (m.regs .cpsr))).set .pc
    (first_jump_table_start + BitVec.ofNat 32 (4 * e.index))

/-! ## The handlers -/

/-- `{r0-r12}` -/
def r0_r12 : List Operand := (List.finRange 13).map .r

def exception_irq_interrupt : List Instruction :=
  [.sub 4 .lr, .stmfd (r0_r12 ++ [.lr]), .call, .ldmfd r0_r12]

/-- The entry of an exception that does not return. `PUSH` is `stmfd`. -/
def crashEntry (mode : Mode) : List Instruction :=
  [.stmfd r0_r12,
    .msr (Mode.system.bits ||| CPSR_I_BIT ||| CPSR_F_BIT), .mov (.r 0) .lr, .mov (.r 1) .sp,
    .msr (mode.bits ||| CPSR_I_BIT ||| CPSR_F_BIT),
    .stmfd [.r 0], .stmfd [.r 1], .sub 8 .lr, .stmfd [.lr], .mov (.r 0) .sp, .call]

def exception_reset : List Instruction := [.call]

def exception_undefined_instruction : List Instruction := crashEntry .undefined

def exception_supervisor_call : List Instruction := crashEntry .supervisor

def exception_prefetch_abort : List Instruction := crashEntry .abort

def exception_data_abort : List Instruction := crashEntry .abort

/-- The addresses in the second jump table stand for the code there. -/
def second_jump_table : List (Option (List Instruction)) :=
  [some exception_reset, some exception_undefined_instruction, some exception_supervisor_call,
    some exception_prefetch_abort, some exception_data_abort, none, some exception_irq_interrupt, none]

/-- The word of the second jump table at an address. The table follows the eight words of the first. -/
def jumpTableWord (first_jump_table_start a : BitVec 32) : Option (List Instruction) :=
  (second_jump_table[(a - (first_jump_table_start + 0x20#32)).toNat / 4]?).join

/-- `ldr pc,[pc,#0x18]`, where `pc` reads as the address of the instruction and 8. -/
def jump (first_jump_table_start pc : BitVec 32) : Option (List Instruction) :=
  jumpTableWord first_jump_table_start (pc + 8#32 + 0x18#32)

/-- An exception, up to the return of its handler. -/
def take (callee : Machine → Machine) (first_jump_table_start : BitVec 32) (e : Exception)
    (m : Machine) : Option Machine :=
  let m := deliver first_jump_table_start e m
  (jump first_jump_table_start (m.regs .pc)).map (run callee m)

def Exception.handler : Exception → List Instruction
  | undefinedInstruction => exception_undefined_instruction
  | supervisorCall => exception_supervisor_call
  | prefetchAbort => exception_prefetch_abort
  | dataAbort => exception_data_abort
  | irq => exception_irq_interrupt

section
variable {callee : Machine → Machine} {m : Machine} {start : BitVec 32} {e : Exception}

/-- The jump tables lead each exception to its handler. -/
theorem jump_deliver : jump start ((deliver start e m).regs .pc) = some e.handler := by
  have hpc : (deliver start e m).regs .pc = start + BitVec.ofNat 32 (4 * e.index) := Machine.set_self
  have hoffset : start + BitVec.ofNat 32 (4 * e.index) + 8#32 + 0x18#32 - (start + 0x20#32) =
      BitVec.ofNat 32 (4 * e.index) := by
    bv_omega
  rw [hpc, jump, jumpTableWord, hoffset]
  cases e <;> rfl

theorem take_eq : take callee start e m = some (run callee (deliver start e m) e.handler) := by
  rw [take, jump_deliver]
  rfl

/-- Bits that are replaced. -/
theorem replaced_and {x mask new field : BitVec 32} (h : mask &&& field = 0#32) :
    (x &&& mask ||| new) &&& field = new &&& field := by
  rw [BitVec.and_or_distrib_right, BitVec.and_assoc, h, BitVec.and_zero, BitVec.zero_or]

theorem mode_status {cpsr : BitVec 32} : Mode.of (e.status cpsr) = e.mode := by
  rw [Mode.of, Exception.status, replaced_and (by decide)]
  cases e <;> rfl

theorem mode_msr {mode : Mode} {cpsr : BitVec 32} :
    Mode.of (cpsr &&& ~~~0xFF#32 ||| (mode.bits ||| CPSR_I_BIT ||| CPSR_F_BIT)) = mode := by
  rw [Mode.of, replaced_and (by decide)]
  cases mode <;> rfl

/-! ## Interrupts -/

/-- The registers that are saved, in the order in which they are pushed. -/
def saved : List Register := (r0_r12.map (Operand.register .irq)).reverse

/-- The machine when the registers are saved: the link register has the address to go on at. -/
def beforeSaving (first_jump_table_start : BitVec 32) (m : Machine) : Machine :=
  let m' := deliver first_jump_table_start .irq m
  m'.set (.lr .irq) (m'.regs (.lr .irq) - 4)

/-- The machine when `exception_irq_interrupt_c` is called. -/
def atCall (first_jump_table_start : BitVec 32) (m : Machine) : Machine :=
  pushes 4 (.sp .irq) (beforeSaving first_jump_table_start m) (.lr .irq :: saved)

/-- The words that are pushed. -/
def words (m : Machine) : List (BitVec 32) := m.regs .pc :: saved.map m.regs

/-- What the called handler may change; it does not return to `pc` but to the link register. -/
def scratch : List Register := .lr .irq :: .pc :: saved

/-- The callee returns with the other registers that it was called with, and leaves the registers that
have been saved. -/
structure Returns (callee : Machine → Machine) (m : Machine) : Prop where
  regs : ∀ r ∉ scratch, (callee m).regs r = m.regs r
  stack : ∀ k < 14, (callee m).mem (above 4 (m.regs (.sp .irq)) k) =
    m.mem (above 4 (m.regs (.sp .irq)) k)

theorem mem_saved {r : Register} : r ∈ saved ↔ ∃ i, r = .r i := by
  simp only [saved, r0_r12, List.map_map, List.mem_reverse, List.mem_map, List.mem_finRange, true_and,
    Function.comp_apply, Operand.register, eq_comm]

theorem length_saved : saved.length = 13 := by
  rw [saved, List.length_reverse, List.length_map, r0_r12, List.length_map, List.length_finRange]

theorem beforeSaving_lr : (beforeSaving start m).regs (.lr .irq) = m.regs .pc := by
  have hlr : (deliver start .irq m).regs (.lr .irq) = m.regs .pc + 4#32 := by
    rw [deliver, Machine.set_of_ne (by decide), Machine.set_of_ne (by decide),
      Machine.set_of_ne (by decide)]
    exact Machine.set_self
  rw [beforeSaving, Machine.set_self, hlr]
  exact add_sub_cancel_right ..

theorem beforeSaving_spsr : (beforeSaving start m).regs (.spsr .irq) = m.regs .cpsr := by
  rw [beforeSaving, Machine.set_of_ne (by decide), deliver, Machine.set_of_ne (by decide),
    Machine.set_of_ne (by decide)]
  exact Machine.set_self

theorem beforeSaving_cpsr : Mode.of ((beforeSaving start m).regs .cpsr) = .irq := by
  rw [beforeSaving, Machine.set_of_ne (by decide), deliver, Machine.set_of_ne (by decide),
    Machine.set_self, mode_status]
  rfl

theorem beforeSaving_regs {r : Register} (hlr : r ≠ .lr .irq) (hspsr : r ≠ .spsr .irq)
    (hcpsr : r ≠ .cpsr) (hpc : r ≠ .pc) : (beforeSaving start m).regs r = m.regs r := by
  rw [beforeSaving, Machine.set_of_ne hlr, deliver, Machine.set_of_ne hpc, Machine.set_of_ne hcpsr]
  exact (Machine.set_of_ne hspsr).trans (Machine.set_of_ne hlr)

theorem beforeSaving_words :
    (Register.lr .irq :: saved).map (beforeSaving start m).regs = words m := by
  rw [List.map_cons, beforeSaving_lr, words]
  refine congrArg _ (List.map_congr_left fun r hr => ?_)
  obtain ⟨i, rfl⟩ := mem_saved.mp hr
  exact beforeSaving_regs (by nofun) (by nofun) (by nofun) (by nofun)

theorem length_words : (words m).length = 14 := by
  rw [words, List.length_cons, List.length_map, length_saved]

theorem atCall_eq : atCall start m = pushWords 4 (.sp .irq) (beforeSaving start m) (words m) := by
  rw [atCall, pushes_eq, beforeSaving_words]
  intro h
  rcases List.mem_cons.mp h with h | h
  · exact nomatch h
  · obtain ⟨i, hi⟩ := mem_saved.mp h
    exact nomatch hi

/-- The machine when the registers are restored, up to the status. -/
def restored (m : Machine) : Machine := pop 4 (.sp .irq) (pops 4 (.sp .irq) m saved.reverse) .pc

theorem atCall_cpsr : Mode.of ((atCall start m).regs .cpsr) = .irq := by
  rw [atCall_eq, pushWords_of_ne (by decide), beforeSaving_cpsr]

theorem atCall_sp : (atCall start m).regs (.sp .irq) = below 4 (m.regs (.sp .irq)) 14 := by
  rw [atCall_eq, pushWords_sp, beforeSaving_regs (by decide) (by decide) (by decide) (by decide),
    length_words]

theorem run_irq (h : Returns callee (atCall start m)) :
    run callee (deliver start .irq m) exception_irq_interrupt =
      (restored (callee (atCall start m))).set .cpsr
        ((restored (callee (atCall start m))).regs (.spsr .irq)) := by
  have hmode : Mode.of ((deliver start .irq m).regs .cpsr) = .irq := by
    have hcpsr : Mode.of ((beforeSaving start m).regs .cpsr) = .irq := beforeSaving_cpsr
    rwa [beforeSaving, Machine.set_of_ne (by decide)] at hcpsr
  have hsub : exec callee (deliver start .irq m) (.sub 4 .lr) = beforeSaving start m := by
    rw [exec, hmode]
    rfl
  have hstmfd : exec callee (beforeSaving start m) (.stmfd (r0_r12 ++ [.lr])) = atCall start m := by
    rw [exec, beforeSaving_cpsr, execIn, List.map_append, List.reverse_append]
    rfl
  have hreturn : Mode.of ((callee (atCall start m)).regs .cpsr) = .irq := by
    rw [h.regs _ (by decide), atCall_cpsr]
  have hldmfd : exec callee (callee (atCall start m)) (.ldmfd r0_r12) =
      (restored (callee (atCall start m))).set .cpsr
        ((restored (callee (atCall start m))).regs (.spsr .irq)) := by
    rw [exec, hreturn, restored, saved, List.reverse_reverse]
    rfl
  rw [run, exception_irq_interrupt, List.foldl_cons, hsub, List.foldl_cons, hstmfd, List.foldl_cons,
    List.foldl_cons, List.foldl_nil, ← hldmfd]
  rfl

theorem atCall_mem_of_ne {a : BitVec 32} (ha : ∀ i < 14, a ≠ below 4 (m.regs (.sp .irq)) (i + 1)) :
    (atCall start m).mem a = m.mem a := by
  rw [atCall_eq, pushWords_mem_of_ne fun i hi => ?_]
  · rfl
  · rw [beforeSaving_regs (by decide) (by decide) (by decide) (by decide)]
    exact ha i (hi.trans_eq length_words)

/-- The words that have been pushed, when the handler has returned. -/
theorem Returns.word (h : Returns callee (atCall start m)) {i : Nat} (hi : i < (words m).length) :
    (callee (atCall start m)).mem (below 4 (m.regs (.sp .irq)) (i + 1)) = (words m)[i] := by
  have hlen : (words m).length = 14 := length_words
  have haddress : below 4 (m.regs (.sp .irq)) (i + 1) =
      above 4 ((atCall start m).regs (.sp .irq)) (13 - i) := by
    rw [atCall_sp, above_below (by omega)]
    congr 1
    omega
  have hsp : (beforeSaving start m).regs (.sp .irq) = m.regs (.sp .irq) :=
    beforeSaving_regs (by decide) (by decide) (by decide) (by decide)
  rw [haddress, h.stack _ (by omega), ← haddress, atCall_eq, ← hsp]
  exact pushWords_mem (by decide) (by rw [hlen]; decide) hi

theorem Returns.pops_regs (h : Returns callee (atCall start m)) (r : Register) :
    (pops 4 (.sp .irq) (callee (atCall start m)) saved.reverse).regs r =
      if r = .sp .irq then below 4 (m.regs (.sp .irq)) 1 else if r ∈ saved then m.regs r
      else (callee (atCall start m)).regs r := by
  refine regs_pops_reverse (by decide) ?_ (fun i hi => ?_) r
  · rw [h.regs _ (by decide), atCall_sp, below_below, length_saved]
  · have hi' : i + 1 < (words m).length := by
      rw [length_words]
      exact Nat.succ_lt_succ (hi.trans_eq length_saved)
    rw [below_below, Nat.add_comm 1, h.word hi']
    simp only [words, List.getElem_cons_succ, List.getElem_map]

/-- The registers that have been restored. -/
theorem Returns.restored_regs (h : Returns callee (atCall start m)) {r : Register}
    (hlr : r ≠ .lr .irq) (hspsr : r ≠ .spsr .irq) (hcpsr : r ≠ .cpsr) :
    (restored (callee (atCall start m))).regs r = m.regs r := by
  have hsp := h.pops_regs (.sp .irq)
  rw [if_pos rfl] at hsp
  rw [restored]
  by_cases hr : r = .sp .irq
  · rw [hr, pop_sp, hsp, above_below le_rfl, Nat.sub_self, below_zero]
  by_cases hpc : r = .pc
  · have hword := h.word (i := 0) (by rw [length_words]; decide)
    rw [hpc, pop_self (by decide), pops_mem, hsp, hword]
    rfl
  rw [pop_of_ne hr hpc, h.pops_regs, if_neg hr]
  split
  · rfl
  · next hsaved =>
    have hkept : r ∉ scratch := by
      simp only [scratch, List.mem_cons, hlr, hpc, hsaved, or_self, not_false_eq_true]
    rw [h.regs r hkept, atCall_eq, pushWords_of_ne hr, beforeSaving_regs hlr hspsr hcpsr hpc]

theorem Returns.restored_spsr (h : Returns callee (atCall start m)) :
    (restored (callee (atCall start m))).regs (.spsr .irq) = m.regs .cpsr := by
  rw [restored, pop_of_ne (by decide) (by decide), h.pops_regs, if_neg (by decide), if_neg (by decide),
    h.regs _ (by decide), atCall_eq, pushWords_of_ne (by decide), beforeSaving_spsr]

/-- Only the link register and the saved status of the mode are not restored. -/
theorem run_irq_regs (h : Returns callee (atCall start m)) {r : Register} (hlr : r ≠ .lr .irq)
    (hspsr : r ≠ .spsr .irq) :
    (run callee (deliver start .irq m) exception_irq_interrupt).regs r = m.regs r := by
  rw [run_irq h]
  by_cases hcpsr : r = .cpsr
  · rw [hcpsr, Machine.set_self, h.restored_spsr]
  · rw [Machine.set_of_ne hcpsr, h.restored_regs hlr hspsr hcpsr]

theorem run_irq_mem (h : Returns callee (atCall start m)) :
    (run callee (deliver start .irq m) exception_irq_interrupt).mem =
      (callee (atCall start m)).mem := by
  rw [run_irq h, Machine.set_mem, restored, pop_mem, pops_mem]

/-- An interrupt whose handler leaves what the interrupted code uses. -/
structure Interruption (u : Uses Register 32) (first_jump_table_start : BitVec 32) (m m' : Machine) :
    Prop where
  handled : ∃ callee, Returns callee (atCall first_jump_table_start m) ∧
    (∀ a ∈ u.words m.regs, (callee (atCall first_jump_table_start m)).mem a =
      (atCall first_jump_table_start m).mem a) ∧
    take callee first_jump_table_start .irq m = some m'

/-- In a run from `m`, the code uses neither the registers that an interrupt changes nor the words of
the stack of the interrupts. -/
structure LeavesIRQStack (code : Code Register 32) (m : Machine) : Prop where
  sp : .sp .irq ∈ code.registers
  lr : .lr .irq ∉ code.registers
  spsr : .spsr .irq ∉ code.registers
  below k : ∀ a ∈ code.words (code.step^[k] m).regs,
    ∀ i < 14, a ≠ below 4 ((code.step^[k] m).regs (.sp .irq)) (i + 1)

/-- Code that runs in another mode gets to the same registers and words however often it is
interrupted. -/
theorem irqs_transparent {code : Code Register 32} {start : BitVec 32} {m m' : Machine}
    {ls : List (Option Unit)} (hcode : LeavesIRQStack code m)
    (h : Run (code.Step fun m _ m' => Interruption code.toUses start m m') m ls m') :
    code.Agree (code.step^[ls.countP Option.isNone] m) m' := by
  refine Code.run_interrupted h ?_
  rintro k m₁ - m₂ hagree ⟨callee, hreturns, hleaves, htake⟩
  rw [take_eq, Option.some_inj] at htake
  subst htake
  refine ⟨fun r hr => run_irq_regs hreturns (fun heq => hcode.lr (heq ▸ hr))
    fun heq => hcode.spsr (heq ▸ hr), fun a ha => ?_⟩
  have hbelow := hcode.below k a (code.words_congr hagree.regs ▸ ha)
  rw [← hagree.regs _ hcode.sp] at hbelow
  exact (congrFun (run_irq_mem hreturns) a).trans ((hleaves a ha).trans (atCall_mem_of_ne hbelow))

end

/-- Code in the system mode that counts in a word. -/
def counting : Code Register 32 where
  registers := {r | r ≠ .lr .irq ∧ r ≠ .spsr .irq}
  words _ := {0x9000#32}
  words_congr _ := rfl
  step m := { m with mem := Function.update m.mem 0x9000#32 (m.mem 0x9000#32 + 1) }
  step_agree {m m'} h := by
    refine ⟨h.regs, ?_⟩
    rintro a rfl
    simp only [Function.update_self, h.mem _ rfl]

theorem counting_regs (m : Machine) (k : Nat) : (counting.step^[k] m).regs = m.regs := by
  induction k with
  | zero => rfl
  | succ k ih =>
    rw [Function.iterate_succ_apply']
    exact ih

theorem counting_leavesIRQStack : LeavesIRQStack counting ⟨fun _ => 0x8000#32, fun _ => 0#32⟩ where
  sp := ⟨by decide, by decide⟩
  lr h := h.1 rfl
  spsr h := h.2 rfl
  below k := by
    rintro a rfl
    rw [counting_regs]
    decide

/-- The handler changes a register. -/
theorem irqs_transparent_counting : ∃ m',
    Run (counting.Step fun m _ m' => Interruption counting.toUses 0x100#32 m m')
      ⟨fun _ => 0x8000#32, fun _ => 0#32⟩ [none, some (), none] m' ∧ m'.mem 0x9000#32 = 2#32 := by
  have hreturns : ∀ m : Machine, Returns (fun m => m.set (.r 0) 0) m := fun m =>
    ⟨fun r hr => Machine.set_of_ne fun h => hr (h ▸ by decide), fun _ _ => rfl⟩
  have hinterrupt : ∀ m, ∃ m', Interruption counting.toUses 0x100#32 m m' :=
    fun m => ⟨_, _, hreturns _, fun _ _ => rfl, take_eq⟩
  obtain ⟨m', hm'⟩ := hinterrupt (counting.step ⟨fun _ => 0x8000#32, fun _ => 0#32⟩)
  have hstep : counting.Step (fun m _ m' => Interruption counting.toUses 0x100#32 m m') _ (some ())
      m' := .interruption hm'
  have hrun := ((Run.single .step).snoc hstep).snoc .step
  exact ⟨_, hrun, (irqs_transparent counting_leavesIRQStack hrun).mem _ rfl⟩

/-! ## Exceptions that do not return -/

/-- What `printCrashContext` prints. -/
def printCrashContext (m : Machine) (sp : BitVec 32) : List (String × BitVec 32) :=
  let word := fun k => m.mem (above 4 sp k)
  [("PC: ", word 0), ("SP: ", word 1), ("LR: ", word 2), ("R0: ", word 3), ("R1: ", word 4),
    ("R2: ", word 5), ("R3: ", word 6), ("R4: ", word 7), ("R5: ", word 8), ("R6: ", word 9),
    ("R7: ", word 10), ("R8: ", word 11), ("R9: ", word 12), ("R10: ", word 13), ("R11 ", word 14),
    ("R12: ", word 15)]

/-- What a handler prints before it restarts the system. -/
def crash (text : String) (exceptionActive : Bool) (m : Machine) (stackpointer : BitVec 32) :
    String × List (String × BitVec 32) :=
  (text, if exceptionActive then [] else printCrashContext m stackpointer)

def exception_undefined_instruction_c := crash "undefined instruction exception"

def exception_supervisor_call_c := crash "supervisor call exception"

def exception_prefetch_abort_c := crash "prefetch abort exception"

def exception_data_abort_c := crash "data abort exception"

/-- What is printed for an exception. The handler is called at the end of the entry, with the stack
pointer in `R0`. -/
def printException (first_jump_table_start : BitVec 32) (exceptionActive : Bool) (e : Exception)
    (m : Machine) : Option (String × List (String × BitVec 32)) :=
  (take id first_jump_table_start e m).bind fun called =>
    match e with
    | .undefinedInstruction =>
      some (exception_undefined_instruction_c exceptionActive called (called.regs (.r 0)))
    | .supervisorCall => some (exception_supervisor_call_c exceptionActive called (called.regs (.r 0)))
    | .prefetchAbort => some (exception_prefetch_abort_c exceptionActive called (called.regs (.r 0)))
    | .dataAbort => some (exception_data_abort_c exceptionActive called (called.regs (.r 0)))
    | .irq => none

/-- The registers of the system mode, but for the program counter. -/
def systemRegisters (m : Machine) : List (String × BitVec 32) :=
  [("SP: ", m.regs (.sp .system)), ("LR: ", m.regs (.lr .system)), ("R0: ", m.regs (.r 0)),
    ("R1: ", m.regs (.r 1)), ("R2: ", m.regs (.r 2)), ("R3: ", m.regs (.r 3)), ("R4: ", m.regs (.r 4)),
    ("R5: ", m.regs (.r 5)), ("R6: ", m.regs (.r 6)), ("R7: ", m.regs (.r 7)), ("R8: ", m.regs (.r 8)),
    ("R9: ", m.regs (.r 9)), ("R10: ", m.regs (.r 10)), ("R11 ", m.regs (.r 11)),
    ("R12: ", m.regs (.r 12))]

section
variable {callee : Machine → Machine} {m m' : Machine} {start : BitVec 32} {e : Exception}
  {mode : Mode} {i : Instruction}

theorem exec_of_mode (hmode : Mode.of (m.regs .cpsr) = mode) :
    exec callee m i = execIn callee mode m i := by
  rw [exec, hmode]

/-- What the entry reads in the system mode. -/
structure ReadsBanked (mode : Mode) (m m' : Machine) : Prop where
  mem : m'.mem = m.mem
  lr : m'.regs (.r 0) = m.regs (.lr .system)
  sp : m'.regs (.r 1) = m.regs (.sp .system)
  mode_eq : Mode.of (m'.regs .cpsr) = mode
  others : ∀ md, m'.regs (.sp md) = m.regs (.sp md) ∧ m'.regs (.lr md) = m.regs (.lr md)

theorem run_readsBanked : ReadsBanked mode m
    (run callee m [.msr (Mode.system.bits ||| CPSR_I_BIT ||| CPSR_F_BIT), .mov (.r 0) .lr,
      .mov (.r 1) .sp, .msr (mode.bits ||| CPSR_I_BIT ||| CPSR_F_BIT)]) := by
  rw [run, List.foldl_cons, List.foldl_cons, List.foldl_cons, List.foldl_cons, List.foldl_nil]
  have hsystem : Mode.of ((exec callee m
      (.msr (Mode.system.bits ||| CPSR_I_BIT ||| CPSR_F_BIT))).regs .cpsr) = .system := by
    rw [exec, execIn, Machine.set_self, mode_msr]
  have hmov : ∀ {m : Machine} {i rn}, Mode.of (m.regs .cpsr) = .system →
      exec callee m (.mov (.r i) rn) = m.set (.r i) (m.regs (rn.register .system)) :=
    fun h => exec_of_mode h
  rw [hmov hsystem, hmov (by rwa [Machine.set_of_ne (by nofun)])]
  generalize Mode.system.bits ||| CPSR_I_BIT ||| CPSR_F_BIT = control
  have hmsr : ∀ {m : Machine} {control r}, r ≠ .cpsr →
      (exec callee m (.msr control)).regs r = m.regs r := fun hr => Machine.set_of_ne hr
  refine ⟨rfl, ?_, ?_, ?_, fun md => ⟨?_, ?_⟩⟩
  · rw [hmsr (by nofun), Machine.set_of_ne (by decide), Machine.set_self]
    exact hmsr (by nofun)
  · rw [hmsr (by nofun), Machine.set_self, Machine.set_of_ne (by nofun)]
    exact hmsr (by nofun)
  · rw [exec, execIn, Machine.set_self, mode_msr]
  · rw [hmsr (by nofun), Machine.set_of_ne (by nofun), Machine.set_of_ne (by nofun), hmsr (by nofun)]
  · rw [hmsr (by nofun), Machine.set_of_ne (by nofun), Machine.set_of_ne (by nofun), hmsr (by nofun)]

theorem run_pushesContext (hmode : Mode.of (m.regs .cpsr) = mode) :
    (run id m [.stmfd [.r 0], .stmfd [.r 1], .sub 8 .lr, .stmfd [.lr], .mov (.r 0) .sp, .call]).mem =
      (pushWords 4 (.sp mode) m [m.regs (.r 0), m.regs (.r 1), m.regs (.lr mode) - 8]).mem ∧
    (run id m [.stmfd [.r 0], .stmfd [.r 1], .sub 8 .lr, .stmfd [.lr], .mov (.r 0) .sp, .call]).regs
      (.r 0) = below 4 (m.regs (.sp mode)) 3 := by
  have hpush : ∀ {m : Machine} {o}, Mode.of (m.regs .cpsr) = mode →
      exec id m (.stmfd [o]) = push 4 (.sp mode) m (m.regs (o.register mode)) :=
    fun h => exec_of_mode h
  have hsub : ∀ {m : Machine}, Mode.of (m.regs .cpsr) = mode →
      exec id m (.sub 8 .lr) = m.set (.lr mode) (m.regs (.lr mode) - 8) := fun h => exec_of_mode h
  have hmov : ∀ {m : Machine}, Mode.of (m.regs .cpsr) = mode →
      exec id m (.mov (.r 0) .sp) = m.set (.r 0) (m.regs (.sp mode)) := fun h => exec_of_mode h
  have hkept : ∀ {m : Machine} {v}, Mode.of (m.regs .cpsr) = mode →
      Mode.of ((push 4 (.sp mode) m v).regs .cpsr) = mode := by
    intro m v h
    rwa [push_of_ne (by nofun)]
  have hkept' : ∀ {m : Machine} {v}, Mode.of (m.regs .cpsr) = mode →
      Mode.of ((m.set (.lr mode) v).regs .cpsr) = mode := by
    intro m v h
    rwa [Machine.set_of_ne (by nofun)]
  rw [run, List.foldl_cons, hpush hmode, List.foldl_cons, hpush (hkept hmode), List.foldl_cons,
    hsub (hkept (hkept hmode)), List.foldl_cons, hpush (hkept' (hkept (hkept hmode))), List.foldl_cons,
    hmov (hkept (hkept' (hkept (hkept hmode))))]
  have hr1 : ∀ v, (push 4 (.sp mode) m v).regs (.r 1) = m.regs (.r 1) := fun _ => push_of_ne (by nofun)
  have hlr : ∀ v w, (push 4 (.sp mode) (push 4 (.sp mode) m v) w).regs (.lr mode) =
      m.regs (.lr mode) := fun _ _ => (push_of_ne (by nofun)).trans (push_of_ne (by nofun))
  have hset : ∀ {m : Machine} {v}, (m.set (.lr mode) v).regs (.sp mode) = m.regs (.sp mode) :=
    Machine.set_of_ne (by nofun)
  dsimp only [Operand.register]
  rw [hr1, hlr, Machine.set_self, push_sp, hset, push_sp, push_sp, below_below, below_below]
  refine ⟨?_, Machine.set_self⟩
  have hlast : ∀ {m : Machine} {v w}, (push 4 (.sp mode) (m.set (.lr mode) v) w).mem =
      (push 4 (.sp mode) m w).mem := by
    intro m v w
    rw [push, push, Machine.set_of_ne (by nofun), Machine.set_mem]
  exact hlast

/-- The words that the entry pushes. -/
def crashWords (mode : Mode) (m : Machine) : List (BitVec 32) :=
  saved.map m.regs ++ [m.regs (.lr .system), m.regs (.sp .system), m.regs (.lr mode) - 8]

theorem r0_r12_register : r0_r12.map (Operand.register mode) = r0_r12.map (Operand.register .irq) := by
  rw [r0_r12, List.map_map, List.map_map]
  rfl

/-- The words lie on the stack of the mode when the handler is called, which gets the stack pointer. -/
theorem run_crashEntry (hmode : Mode.of (m.regs .cpsr) = mode) (hne : mode ≠ .system) :
    (run id m (crashEntry mode)).mem = (pushWords 4 (.sp mode) m (crashWords mode m)).mem ∧
    (run id m (crashEntry mode)).regs (.r 0) = below 4 (m.regs (.sp mode)) 16 := by
  have hsave : exec id m (.stmfd r0_r12) = pushWords 4 (.sp mode) m (saved.map m.regs) := by
    rw [exec_of_mode hmode, execIn, r0_r12_register]
    refine pushes_eq fun h => ?_
    obtain ⟨i, hi⟩ := mem_saved.mp h
    exact nomatch hi
  have hread : ReadsBanked mode (exec id m (.stmfd r0_r12)) (run id (exec id m (.stmfd r0_r12))
      [.msr (Mode.system.bits ||| CPSR_I_BIT ||| CPSR_F_BIT), .mov (.r 0) .lr, .mov (.r 1) .sp,
        .msr (mode.bits ||| CPSR_I_BIT ||| CPSR_F_BIT)]) := run_readsBanked
  obtain ⟨hmem, hr0⟩ := run_pushesContext hread.mode_eq
  have hothers := hread.others mode
  rw [hread.lr, hread.sp, hothers.2, hsave] at hmem
  rw [hothers.1, hsave, pushWords_sp, List.length_map, length_saved, below_below] at hr0
  have hlr : ∀ md, (pushWords 4 (.sp mode) m (saved.map m.regs)).regs (.lr md) = m.regs (.lr md) :=
    fun _ => pushWords_of_ne (by nofun)
  have hsp : (pushWords 4 (.sp mode) m (saved.map m.regs)).regs (.sp .system) = m.regs (.sp .system) :=
    pushWords_of_ne fun h => hne (Register.sp.inj h).symm
  rw [hlr, hlr, hsp] at hmem
  have hentry : run id m (crashEntry mode) = run id (run id (exec id m (.stmfd r0_r12))
      [.msr (Mode.system.bits ||| CPSR_I_BIT ||| CPSR_F_BIT), .mov (.r 0) .lr, .mov (.r 1) .sp,
        .msr (mode.bits ||| CPSR_I_BIT ||| CPSR_F_BIT)])
      [.stmfd [.r 0], .stmfd [.r 1], .sub 8 .lr, .stmfd [.lr], .mov (.r 0) .sp, .call] := by
    simp only [run, crashEntry, List.foldl_cons, List.foldl_nil]
  rw [hentry, hsave, hmem, hr0, crashWords, pushWords_append]
  refine ⟨pushWords_congr ?_ ?_, rfl⟩
  · rw [← hsave, ← hothers.1, hsave]
  · rw [← hsave, ← hread.mem, hsave]

theorem deliver_crashWords (hmode : e.mode ≠ .system) :
    crashWords e.mode (deliver start e m) = saved.map m.regs ++
      [m.regs (.lr .system), m.regs (.sp .system), m.regs .pc + e.linkOffset - 8] := by
  have hothers : ∀ {r}, r ≠ .lr e.mode → r ≠ .spsr e.mode → r ≠ .cpsr → r ≠ .pc →
      (deliver start e m).regs r = m.regs r := by
    intro r hlr hspsr hcpsr hpc
    rw [deliver, Machine.set_of_ne hpc, Machine.set_of_ne hcpsr]
    exact (Machine.set_of_ne hspsr).trans (Machine.set_of_ne hlr)
  have hlr : (deliver start e m).regs (.lr e.mode) = m.regs .pc + e.linkOffset := by
    rw [deliver, Machine.set_of_ne (by nofun), Machine.set_of_ne (by nofun),
      Machine.set_of_ne (by nofun)]
    exact Machine.set_self
  have hsaved : saved.map (deliver start e m).regs = saved.map m.regs := by
    refine List.map_congr_left fun r hr => ?_
    obtain ⟨i, rfl⟩ := mem_saved.mp hr
    exact hothers (by nofun) (by nofun) (by nofun) (by nofun)
  rw [crashWords, hsaved, hlr, hothers (fun h => hmode (Register.lr.inj h).symm) (by nofun) (by nofun)
    (by nofun), hothers (by nofun) (by nofun) (by nofun) (by nofun)]

/-- The words that are printed. -/
theorem crash_word {words : List (BitVec 32)} {a : BitVec 32} (hlen : words.length = 16)
    (hmem : m'.mem = (pushWords 4 (.sp mode) m words).mem) (ha : a = below 4 (m.regs (.sp mode)) 16)
    {k : Nat} (hk : k < 16) : m'.mem (above 4 a k) = words.reverse.getD k 0 := by
  have hindex : 16 - k = 15 - k + 1 := by omega
  rw [hmem, ha, above_below hk.le, hindex, pushWords_mem (by decide) (by rw [hlen]; decide) (by omega),
    List.getD_eq_getElem _ _ (by rw [List.length_reverse, hlen]; exact hk), List.getElem_reverse]
  congr 1
  omega

/-- All registers that are printed are those of the code that failed, but for the program counter,
which is right for a data abort only. -/
theorem printCrashContext_iff (start : BitVec 32) (he : e ≠ .irq) (m : Machine) : ∃ text printed,
    printException start false e m = some (text, printed) ∧ systemRegisters m ⊆ printed ∧
    (("PC: ", m.regs .pc) ∈ printed ↔ e = .dataAbort) := by
  have hmode : Mode.of ((deliver start e m).regs .cpsr) = e.mode := by
    rw [deliver, Machine.set_of_ne (by nofun), Machine.set_self, mode_status]
  have hsystem : e.mode ≠ .system := by cases e <;> nofun
  have hhandler : e.handler = crashEntry e.mode := by cases e <;> first | rfl | exact absurd rfl he
  obtain ⟨hmem, hr0⟩ := run_crashEntry hmode hsystem
  rw [deliver_crashWords hsystem] at hmem
  obtain ⟨called, hcalled⟩ : ∃ called, called = run id (deliver start e m) (crashEntry e.mode) :=
    ⟨_, rfl⟩
  rw [← hcalled] at hmem hr0
  have htake : take id start e m = some called := by rw [take_eq, hhandler, hcalled]
  have hword := fun k (hk : k < 16) => crash_word (by
    rw [List.length_append, List.length_map, length_saved]; rfl) hmem hr0 (k := k) hk
  have hprinted : ∃ text, printException start false e m =
      some (text, printCrashContext called (called.regs (.r 0))) := by
    rw [printException, htake]
    cases e with
    | irq => exact absurd rfl he
    | _ => exact ⟨_, rfl⟩
  obtain ⟨text, hprinted⟩ := hprinted
  refine ⟨text, _, hprinted, ?_, ?_⟩
  · rw [printCrashContext]
    dsimp only
    simp (disch := decide) only [hword]
    exact List.subset_cons_self _ _
  · have hpc : (saved.map m.regs ++ [m.regs (.lr .system), m.regs (.sp .system),
        m.regs .pc + e.linkOffset - 8]).reverse.getD 0 0 = m.regs .pc + e.linkOffset - 8 := by
      rw [List.reverse_append]
      rfl
    have hmem_iff : ("PC: ", m.regs .pc) ∈ printCrashContext called (called.regs (.r 0)) ↔
        m.regs .pc = m.regs .pc + e.linkOffset - 8 := by
      rw [printCrashContext]
      dsimp only
      rw [hword 0 (by decide), hpc]
      simp
    rw [hmem_iff]
    cases e with
    | dataAbort => exact iff_of_true (add_sub_cancel_right ..).symm rfl
    | irq => exact absurd rfl he
    | _ => exact iff_of_false (by simp only [Exception.linkOffset]; bv_omega) nofun

end

/-- A machine in which all registers have different values. -/
def numbered : Machine where
  regs
    | .r n => BitVec.ofNat 32 (n.val + 1)
    | .pc => 0x8000#32
    | .cpsr => 0x1F#32
    | .sp mode => 0x1000#32 + BitVec.ofNat 32 (mode.ctorIdx * 0x100)
    | .lr mode => 0x2000#32 + BitVec.ofNat 32 (mode.ctorIdx * 0x100)
    | .spsr mode => 0x3000#32 + BitVec.ofNat 32 (mode.ctorIdx * 0x100)
  mem _ := 0#32

/-- A data abort. -/
theorem printCrashContext_iff_dataAbort : ∃ text printed,
    printException 0x100#32 false .dataAbort numbered = some (text, printed) ∧
      systemRegisters numbered ⊆ printed ∧ ("PC: ", 0x8000#32) ∈ printed := by
  have he : Exception.dataAbort ≠ .irq := by decide
  obtain ⟨text, printed, hprinted, hsystem, hpc⟩ := printCrashContext_iff 0x100#32 he numbered
  exact ⟨text, printed, hprinted, hsystem, hpc.mpr rfl⟩

end ARMv7

end CyPhOS
