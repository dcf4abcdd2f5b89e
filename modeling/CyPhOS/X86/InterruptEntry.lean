import CyPhOS.Lib.BitField
import CyPhOS.Lib.InterruptedCode
import Mathlib.Algebra.Group.Nat.Defs
import Mathlib.Tactic.IntervalCases

/-! # The interrupt entry of x86

The interrupt descriptor table sends each vector to an entry of its own, which brings the number of the
vector to the handler that they share. It saves the registers, calls `exception_irq_interrupt_c` and
restores them. `interrupt_transparent` says that the interrupted code goes on as if nothing had
happened, if the handler keeps to the calling convention; `interrupts_transparent` says it of runs. The
traps of the CPU do not return: the handler prints the registers from where they have been saved.
`printStackError_iff` says for which vectors it prints the right ones.

The machine has the general registers; those of SSE are not saved.
-/

namespace CyPhOS

open RegisterStack Transition

namespace X86

/-! ## Instructions -/

inductive Register
  | rax | rbx | rcx | rdx | rbp | rsi | rdi | rsp
  | r8 | r9 | r10 | r11 | r12 | r13 | r14 | r15
  | rip | rflags | cs | ss
  deriving DecidableEq

abbrev Machine := RegisterStack.Machine Register 64

inductive Instruction
  | cld
  | pushq (r : Register)
  | popq (r : Register)
  | mov (src dst : Register)
  | movImm (n : BitVec 64) (dst : Register)
  | call
  | iretq

/-- What an instruction does. `callee` is what happens from a call to the return from it. -/
def exec (callee : Machine → Machine) (m : Machine) : Instruction → Machine
  | .cld => m.set .rflags (m.regs .rflags &&& ~~~(1#64 <<< 10))
  | .pushq r => push 8 .rsp m (m.regs r)
  | .popq r => pop 8 .rsp m r
  | .mov src dst => m.set dst (m.regs src)
  | .movImm n dst => m.set dst n
  | .call => callee m
  | .iretq =>
    let word := fun i => m.mem (above 8 (m.regs .rsp) i)
    let m := (m.set .rip (word 0)).set .cs (word 1)
    ((m.set .rflags (word 2)).set .ss (word 4)).set .rsp (word 3)

def run (callee : Machine → Machine) (m : Machine) (is : List Instruction) : Machine :=
  is.foldl (exec callee) m

section
variable {callee : Machine → Machine} {m : Machine}

@[simp] theorem exec_iretq_mem : (exec callee m .iretq).mem = m.mem := rfl

end

/-! ## The interrupt descriptor table -/

def ISR_VECTOR_ENTRY_SIZE : Nat := 0x10

def cIDTSize : Nat := 256

/-- The entry of a vector in the array that begins at `low_level_isr_entry_array_start`. -/
def entryAddress (low_level_isr_entry_array_start : BitVec 64) (i : Nat) : BitVec 64 :=
  low_level_isr_entry_array_start + BitVec.ofNat 64 (i * ISR_VECTOR_ENTRY_SIZE)

/-- An iteration of `fillIDT`, on a descriptor. -/
def fillIDT (low_level_isr_entry_array_start : BitVec 64) (i : Nat) (e : BitVec 128) : BitVec 128 :=
  let entryAddress := entryAddress low_level_isr_entry_array_start i
  let e := BitField.set 0 ((0xFFFF#64 &&& entryAddress).setWidth 16) e
  let e := BitField.set 48 ((0xFFFF#64 &&& (entryAddress >>> 16)).setWidth 16) e
  let e := BitField.set 64 ((0xFFFFFFFF#64 &&& (entryAddress >>> 32)).setWidth 32) e
  -- targetSelector, ist, type, p, reserved2 and zero0
  let e := BitField.set 16 0x10#16 e
  let e := BitField.set 32 0x0#3 e
  let e := BitField.set 40 0xE#4 e
  let e := BitField.set 47 1#1 e
  let e := BitField.set 96 0x0#32 e
  BitField.set 44 0#1 e

/-- What the CPU reads in a descriptor. -/
structure Gate where
  offset : BitVec 64
  selector : BitVec 16
  ist : BitVec 3
  type : BitVec 4
  zero : BitVec 1
  p : BitVec 1

def gate (e : BitVec 128) : Gate where
  offset := BitField.get 64 32 e ++ BitField.get 48 16 e ++ BitField.get 0 16 e
  selector := BitField.get 16 16 e
  ist := BitField.get 32 3 e
  type := BitField.get 40 4 e
  zero := BitField.get 44 1 e
  p := BitField.get 47 1 e

theorem mask_setWidth {a mask : BitVec 64} {n : Nat} (hmask : mask.setWidth n = BitVec.allOnes n) :
    (mask &&& a).setWidth n = a.setWidth n := by
  rw [BitVec.setWidth_and, hmask, BitVec.allOnes_and]

theorem append_offsets (a : BitVec 64) :
    (a >>> 32).setWidth 32 ++ (a >>> 16).setWidth 16 ++ a.setWidth 16 = a := by
  apply BitVec.eq_of_getLsbD_eq
  intro i hi
  simp only [BitVec.getLsbD_append, BitVec.getLsbD_setWidth, BitVec.getLsbD_ushiftRight]
  by_cases hlow : i < 16
  · simp [hlow]
  by_cases hmid : i - 16 < 16
  · simp [hlow, hmid, show 16 + (i - 16) = i by omega]
  · simp [hlow, hmid, show 32 + (i - 16 - 16) = i by omega, show i - 16 - 16 < 32 by omega]

/-- The CPU finds an interrupt gate to the entry of the vector. -/
theorem gate_fillIDT (start : BitVec 64) (i : Nat) (e : BitVec 128) : gate (fillIDT start i e) =
    ⟨entryAddress start i, 0x10#16, 0#3, 0xE#4, 0#1, 1#1⟩ := by
  simp (disch := omega) only [gate, fillIDT, BitField.get_set, BitField.get_set_of_disjoint]
  rw [mask_setWidth rfl, mask_setWidth rfl, mask_setWidth rfl, append_offsets]

/-! ## From the interrupt to the handler and back -/

/-- The entry of a vector. It jumps to `low_level_isr_generic_handler`. -/
def low_level_isr_entry (index : Nat) : List Instruction :=
  [.pushq .rdi, .movImm (BitVec.ofNat 64 index) .rdi]

def low_level_isr_generic_handler : List Instruction :=
  [.cld, .pushq .rax, .pushq .rbx, .pushq .rcx, .pushq .rdx, .pushq .rbp, .pushq .rsi, .pushq .r8,
    .pushq .r9, .pushq .r10, .pushq .r11, .pushq .r12, .pushq .r13, .pushq .r14, .pushq .r15,
    .mov .rsp .rsi, .call, .popq .r15, .popq .r14, .popq .r13, .popq .r12, .popq .r11, .popq .r10,
    .popq .r9, .popq .r8, .popq .rsi, .popq .rbp, .popq .rdx, .popq .rcx, .popq .rbx, .popq .rax,
    .popq .rdi, .iretq]

/-- The code at an address in the array of the entries. -/
def codeAt (low_level_isr_entry_array_start a : BitVec 64) : Option (List Instruction) :=
  ((List.range cIDTSize).find? fun i => entryAddress low_level_isr_entry_array_start i == a).map
    fun i => low_level_isr_entry i ++ low_level_isr_generic_handler

/-- What the CPU pushes. -/
def frame (m : Machine) (errorCode : Option (BitVec 64)) : List (BitVec 64) :=
  [m.regs .ss, m.regs .rsp, m.regs .rflags, m.regs .cs, m.regs .rip] ++ errorCode.toList

/-- The stack pointer that the CPU begins to push from. -/
def alignedStack (m : Machine) : BitVec 64 := m.regs .rsp &&& ~~~0xF#64

/-- The CPU delivers an interrupt through a gate, and masks interrupts (TF, IF, NT and RF are
cleared). -/
def deliver (g : Gate) (errorCode : Option (BitVec 64)) (m : Machine) : Machine :=
  let pushed := pushWords 8 .rsp (m.set .rsp (alignedStack m)) (frame m errorCode)
  ((pushed.set .rip g.offset).set .cs (g.selector.setWidth 64)).set .rflags
    (m.regs .rflags &&& ~~~0x14300#64)

/-- The interrupt of a vector, up to the return from it. -/
def interrupt (callee : Machine → Machine) (low_level_isr_entry_array_start : BitVec 64)
    (mIDT : Nat → BitVec 128) (vector : Nat) (errorCode : Option (BitVec 64)) (m : Machine) :
    Option Machine :=
  let m := deliver (gate (mIDT vector)) errorCode m
  (codeAt low_level_isr_entry_array_start (m.regs .rip)).map (run callee m)

section
variable {callee : Machine → Machine} {m : Machine} {start : BitVec 64} {vector i : Nat}
  {errorCode : Option (BitVec 64)} {g : Gate}

theorem entryAddress_inj {j : Nat} (hi : i < cIDTSize) (hj : j < cIDTSize) :
    entryAddress start i = entryAddress start j ↔ i = j := by
  constructor
  · intro h
    have hnat := congrArg BitVec.toNat (add_left_cancel h)
    rw [BitVec.toNat_ofNat, BitVec.toNat_ofNat] at hnat
    simp only [ISR_VECTOR_ENTRY_SIZE, cIDTSize] at hnat hi hj
    omega
  · rintro rfl
    rfl

theorem codeAt_entryAddress (hvector : vector < cIDTSize) :
    codeAt start (entryAddress start vector) =
      some (low_level_isr_entry vector ++ low_level_isr_generic_handler) := by
  have hfind : (List.range cIDTSize).find?
      (fun i => entryAddress start i == entryAddress start vector) = some vector := by
    rw [List.find?_range_eq_some]
    refine ⟨beq_self_eq_true _, List.mem_range.mpr hvector, fun j hj => ?_⟩
    have hne : entryAddress start j ≠ entryAddress start vector := by
      rw [Ne, entryAddress_inj (hj.trans hvector) hvector]
      exact hj.ne
    simpa using hne
  rw [codeAt, hfind]
  rfl

/-! ### The call of the handler -/

/-- The registers that are saved, in the order in which they are pushed. -/
def saved : List Register :=
  [.rdi, .rax, .rbx, .rcx, .rdx, .rbp, .rsi, .r8, .r9, .r10, .r11, .r12, .r13, .r14, .r15]

/-- The machine when the handler that the vectors share begins to save the registers. -/
def beforeSaving (vector : Nat) (m : Machine) : Machine :=
  let m := (push 8 .rsp m (m.regs .rdi)).set .rdi (BitVec.ofNat 64 vector)
  m.set .rflags (m.regs .rflags &&& ~~~(1#64 <<< 10))

/-- The machine when the handler is called. -/
def atCall (vector : Nat) (m : Machine) : Machine :=
  let m := pushes 8 .rsp (beforeSaving vector m) saved.tail
  m.set .rsi (m.regs .rsp)

theorem run_low_level_isr :
    run callee m (low_level_isr_entry vector ++ low_level_isr_generic_handler) =
      exec callee (pops 8 .rsp (callee (atCall vector m)) saved.reverse) .iretq := rfl

theorem beforeSaving_regs {r : Register} (hsp : r ≠ .rsp) (hdi : r ≠ .rdi) (hflags : r ≠ .rflags) :
    (beforeSaving vector m).regs r = m.regs r := by
  rw [beforeSaving, Machine.set_of_ne hflags, Machine.set_of_ne hdi, push_of_ne hsp]

theorem beforeSaving_rsp : (beforeSaving vector m).regs .rsp = below 8 (m.regs .rsp) 1 := by
  rw [beforeSaving, Machine.set_of_ne (by decide), Machine.set_of_ne (by decide), push_sp]

theorem beforeSaving_mem : (beforeSaving vector m).mem = (push 8 .rsp m (m.regs .rdi)).mem := rfl

theorem pushes_saved : pushes 8 .rsp (beforeSaving vector m) saved.tail =
    pushWords 8 .rsp (beforeSaving vector m) (saved.tail.map m.regs) := by
  have hkept : ∀ r ∈ saved.tail, r ≠ .rsp ∧ r ≠ .rdi ∧ r ≠ .rflags := by decide
  rw [pushes_eq fun h => (hkept _ h).1 rfl]
  refine congrArg _ (List.map_congr_left fun r hr => ?_)
  obtain ⟨hsp, hdi, hflags⟩ := hkept r hr
  exact beforeSaving_regs hsp hdi hflags

theorem atCall_mem : (atCall vector m).mem = (pushWords 8 .rsp m (saved.map m.regs)).mem := by
  have hsaved : saved.map m.regs = m.regs .rdi :: saved.tail.map m.regs := rfl
  rw [atCall, Machine.set_mem, pushes_saved, hsaved, pushWords_cons]
  exact pushWords_congr (beforeSaving_rsp.trans push_sp.symm) beforeSaving_mem

theorem atCall_rsp : (atCall vector m).regs .rsp = below 8 (m.regs .rsp) saved.length := by
  have hsaved : 1 + (saved.tail.map m.regs).length = saved.length := rfl
  rw [atCall, Machine.set_of_ne (by decide), pushes_saved, pushWords_sp, beforeSaving_rsp, below_below,
    hsaved]

theorem atCall_rsi : (atCall vector m).regs .rsi = (atCall vector m).regs .rsp := by
  rw [atCall, Machine.set_self, Machine.set_of_ne (by decide)]

theorem atCall_rdi : (atCall vector m).regs .rdi = BitVec.ofNat 64 vector := by
  rw [atCall, Machine.set_of_ne (by decide), pushes_saved, pushWords_of_ne (by decide), beforeSaving,
    Machine.set_of_ne (by decide), Machine.set_self]

/-! ### The stack of an interrupt -/

/-- The words on the stack when the handler is called. -/
def words (m : Machine) (errorCode : Option (BitVec 64)) : List (BitVec 64) :=
  frame m errorCode ++ saved.map m.regs

theorem deliver_regs {r : Register} (hsp : r ≠ .rsp) (hip : r ≠ .rip) (hcs : r ≠ .cs)
    (hflags : r ≠ .rflags) : (deliver g errorCode m).regs r = m.regs r := by
  rw [deliver, Machine.set_of_ne hflags, Machine.set_of_ne hcs, Machine.set_of_ne hip,
    pushWords_of_ne hsp, Machine.set_of_ne hsp]

theorem deliver_rip : (deliver g errorCode m).regs .rip = g.offset := by
  rw [deliver, Machine.set_of_ne (by decide), Machine.set_of_ne (by decide), Machine.set_self]

theorem deliver_rsp : (deliver g errorCode m).regs .rsp =
    below 8 (alignedStack m) (frame m errorCode).length := by
  rw [deliver, Machine.set_of_ne (by decide), Machine.set_of_ne (by decide),
    Machine.set_of_ne (by decide), pushWords_sp, Machine.set_self]

theorem map_saved_deliver : saved.map (deliver g errorCode m).regs = saved.map m.regs := by
  have hkept : ∀ r ∈ saved, r ≠ .rsp ∧ r ≠ .rip ∧ r ≠ .cs ∧ r ≠ .rflags := by decide
  refine List.map_congr_left fun r hr => ?_
  obtain ⟨hsp, hip, hcs, hflags⟩ := hkept r hr
  exact deliver_regs hsp hip hcs hflags

theorem interrupted_mem : (atCall vector (deliver g errorCode m)).mem =
    (pushWords 8 .rsp (m.set .rsp (alignedStack m)) (words m errorCode)).mem := by
  rw [atCall_mem, map_saved_deliver, words, pushWords_append]
  refine pushWords_congr ?_ rfl
  rw [deliver_rsp, pushWords_sp, Machine.set_self]

theorem interrupted_rsp : (atCall vector (deliver g errorCode m)).regs .rsp =
    below 8 (alignedStack m) (words m errorCode).length := by
  rw [atCall_rsp, deliver_rsp, below_below, words, List.length_append, List.length_map]

theorem length_words : (words m errorCode).length = 20 + errorCode.toList.length := by
  rw [words, frame, List.length_append, List.length_append, List.length_map]
  simp only [List.length_cons, List.length_nil, saved]
  omega

theorem interrupted_word {i : Nat} (hi : i < (words m errorCode).length) :
    (atCall vector (deliver g errorCode m)).mem (below 8 (alignedStack m) (i + 1)) =
      (words m errorCode)[i] := by
  have hlen : errorCode.toList.length ≤ 1 := by cases errorCode <;> simp
  have hwords : (pushWords 8 .rsp (m.set .rsp (alignedStack m)) (words m errorCode)).mem
      (below 8 ((m.set .rsp (alignedStack m)).regs .rsp) (i + 1)) = (words m errorCode)[i] :=
    pushWords_mem (by decide) (by rw [length_words]; omega) hi
  rw [Machine.set_self] at hwords
  rw [interrupted_mem, hwords]

/-! ### The return -/

/-- The callee returns with the stack pointer it was called with, and leaves what was on the stack when
the interrupted code was reached. -/
structure Returns (callee : Machine → Machine) (m : Machine) : Prop where
  rsp : (callee m).regs .rsp = m.regs .rsp
  stack : ∀ k < 20, (callee m).mem (above 8 (m.regs .rsp) k) = m.mem (above 8 (m.regs .rsp) k)

theorem Returns.word (h : Returns callee (atCall vector (deliver g none m))) {i : Nat}
    (hi : i < (words m none).length) :
    (callee (atCall vector (deliver g none m))).mem (below 8 (alignedStack m) (i + 1)) =
      (words m none)[i] := by
  have hlen : (words m none).length = 20 := length_words
  have haddress : below 8 (alignedStack m) (i + 1) =
      above 8 ((atCall vector (deliver g none m)).regs .rsp) (19 - i) := by
    rw [interrupted_rsp, hlen, above_below (by omega)]
    congr 1
    omega
  rw [haddress, h.stack _ (by omega), ← haddress, interrupted_word]

/-- The registers that the shared handler has restored. -/
theorem Returns.regs_pops (h : Returns callee (atCall vector (deliver g none m))) (r : Register) :
    (pops 8 .rsp (callee (atCall vector (deliver g none m))) saved.reverse).regs r =
      if r = .rsp then below 8 (alignedStack m) 5 else if r ∈ saved then m.regs r
      else (callee (atCall vector (deliver g none m))).regs r := by
  have hlen : (words m none).length = 20 := length_words
  refine regs_pops_reverse (by decide) ?_ (fun i hi => ?_) r
  · rw [h.rsp, interrupted_rsp, below_below, hlen]
    rfl
  · have hi' : i < 15 := hi
    rw [below_below, ← Nat.add_assoc, h.word (by omega)]
    simp only [words, frame, Option.toList, List.append_nil, List.getElem_append_right,
      List.length_cons, List.length_nil, Nat.le_add_right, Nat.add_sub_cancel_left, List.getElem_map]

/-- What `iretq` pops. -/
theorem Returns.iretq_word (h : Returns callee (atCall vector (deliver g none m))) {k : Nat}
    (hk : k < 5) : (pops 8 .rsp (callee (atCall vector (deliver g none m))) saved.reverse).mem
      (above 8 (below 8 (alignedStack m) 5) k) = (frame m none).reverse.getD k 0 := by
  have hlen : (words m none).length = 20 := length_words
  rw [pops_mem, above_below hk.le, show 5 - k = 4 - k + 1 by omega, h.word (by omega)]
  interval_cases k <;> rfl

theorem Returns.exec_iretq (h : Returns callee (atCall vector (deliver g none m))) (r : Register) :
    (exec callee (pops 8 .rsp (callee (atCall vector (deliver g none m))) saved.reverse) .iretq).regs
      r = m.regs r := by
  have hregs := h.regs_pops
  have hword := fun k (hk : k < 5) => h.iretq_word hk
  generalize pops 8 .rsp (callee (atCall vector (deliver g none m))) saved.reverse = popped
    at hregs hword
  have hsp := hregs .rsp
  rw [if_pos rfl] at hsp
  rw [exec]
  dsimp only
  rw [hsp, hword 0 (by decide), hword 1 (by decide), hword 2 (by decide), hword 3 (by decide),
    hword 4 (by decide)]
  by_cases hr : r ∈ saved
  · have hkept : ∀ r ∈ saved, r ≠ .rsp ∧ r ≠ .ss ∧ r ≠ .rflags ∧ r ≠ .cs ∧ r ≠ .rip := by decide
    obtain ⟨hrsp, hss, hflags, hcs, hip⟩ := hkept r hr
    rw [Machine.set_of_ne hrsp, Machine.set_of_ne hss, Machine.set_of_ne hflags,
      Machine.set_of_ne hcs, Machine.set_of_ne hip, hregs, if_neg hrsp, if_pos hr]
  · cases r <;> first | rfl | exact absurd (by decide) hr

theorem interrupted_mem_of_ne {a : BitVec 64} (ha : ∀ i < 20, a ≠ below 8 (alignedStack m) (i + 1)) :
    (atCall vector (deliver g none m)).mem a = m.mem a := by
  rw [interrupted_mem]
  refine pushWords_mem_of_ne fun i hi => ?_
  rw [Machine.set_self]
  exact ha i (hi.trans_eq length_words)

theorem interrupt_eq {mIDT : Nat → BitVec 128} (hvector : vector < cIDTSize) :
    interrupt callee start (fun i => fillIDT start i (mIDT i)) vector errorCode m =
      some (exec callee (pops 8 .rsp (callee (atCall vector
        (deliver (gate (fillIDT start vector (mIDT vector))) errorCode m))) saved.reverse)
        .iretq) := by
  rw [interrupt, deliver_rip, gate_fillIDT, codeAt_entryAddress hvector]
  exact congrArg some run_low_level_isr

/-- After an interrupt for which the CPU pushes no error code, the interrupted code goes on with the
registers that it had. The handler that is called gets the number of the vector; until it is called,
only the words below the stack pointer change that the registers are saved to, and after it has
returned none. -/
theorem interrupt_transparent (start : BitVec 64) (mIDT : Nat → BitVec 128)
    (hvector : vector < cIDTSize) (m : Machine) {called : Machine}
    (hcalled : called = atCall vector (deliver (gate (fillIDT start vector (mIDT vector))) none m))
    (hcallee : Returns callee called) :
    called.regs .rdi = BitVec.ofNat 64 vector ∧
    (∀ a, (∀ i < 20, a ≠ below 8 (alignedStack m) (i + 1)) → called.mem a = m.mem a) ∧
    ∃ m', interrupt callee start (fun i => fillIDT start i (mIDT i)) vector none m = some m' ∧
      (∀ r, m'.regs r = m.regs r) ∧ m'.mem = (callee called).mem := by
  subst hcalled
  refine ⟨atCall_rdi, fun a ha => interrupted_mem_of_ne ha, _, interrupt_eq hvector,
    hcallee.exec_iretq, ?_⟩
  rw [exec_iretq_mem, pops_mem]

end

theorem returns_set_rax (m : Machine) : Returns (fun m => m.set .rax 0) m :=
  ⟨Machine.set_of_ne (by decide), fun _ _ => rfl⟩

/-- The handler changes a register. -/
theorem interrupt_transparent_keyboard : ∃ m',
    interrupt (fun m => m.set .rax 0) 0x100000#64 (fun i => fillIDT 0x100000#64 i 0) 0x21 none
      ⟨fun _ => 7#64, fun _ => 0#64⟩ = some m' ∧ m'.regs .rax = 7#64 := by
  obtain ⟨-, -, m', hm', hregs, -⟩ := interrupt_transparent 0x100000#64 (fun _ => 0)
    (show 0x21 < cIDTSize by decide) ⟨fun _ => 7#64, fun _ => 0#64⟩ rfl
    (returns_set_rax _)
  exact ⟨m', hm', hregs .rax⟩

/-! ## Code that is interrupted -/

/-- An interrupt whose handler leaves what the interrupted code uses. -/
structure Interruption (u : Uses Register 64) (low_level_isr_entry_array_start : BitVec 64)
    (mIDT : Nat → BitVec 128) (m : Machine) (vector : Nat) (m' : Machine) : Prop where
  vector_lt : vector < cIDTSize
  handled : ∃ callee called,
    called = atCall vector
      (deliver (gate (fillIDT low_level_isr_entry_array_start vector (mIDT vector))) none m) ∧
    Returns callee called ∧ (∀ a ∈ u.words m.regs, (callee called).mem a = called.mem a) ∧
    interrupt callee low_level_isr_entry_array_start
      (fun i => fillIDT low_level_isr_entry_array_start i (mIDT i)) vector none m = some m'

/-- In a run from `m`, the code uses no word below its stack pointer that an interrupt may write. -/
structure NoRedZone (code : Code Register 64) (m : Machine) : Prop where
  rsp : .rsp ∈ code.registers
  below k : ∀ a ∈ code.words (code.step^[k] m).regs,
    ∀ i < 20, a ≠ below 8 (alignedStack (code.step^[k] m)) (i + 1)

/-- Code without a red zone gets to the same registers and words however often it is interrupted. -/
theorem interrupts_transparent {code : Code Register 64} {start : BitVec 64} {mIDT : Nat → BitVec 128}
    {m m' : Machine} {ls : List (Option Nat)} (hcode : NoRedZone code m)
    (h : Run (code.Step (Interruption code.toUses start mIDT)) m ls m') :
    code.Agree (code.step^[ls.countP Option.isNone] m) m' := by
  refine Code.run_interrupted h ?_
  rintro k m₁ vector m₂ hagree ⟨hvector, callee, called, rfl, hreturns, hleaves, hinterrupt⟩
  rw [interrupt_eq hvector, Option.some_inj] at hinterrupt
  subst hinterrupt
  refine ⟨fun r _ => hreturns.exec_iretq r, fun a ha => ?_⟩
  have hbelow := hcode.below k a (code.words_congr hagree.regs ▸ ha)
  rw [alignedStack, ← hagree.regs .rsp hcode.rsp] at hbelow
  rw [exec_iretq_mem, pops_mem, hleaves a ha, interrupted_mem_of_ne hbelow]

/-- Code that counts in a word. -/
def counting : Code Register 64 where
  registers := Set.univ
  words _ := {0x9000#64}
  words_congr _ := rfl
  step m := { m with mem := Function.update m.mem 0x9000#64 (m.mem 0x9000#64 + 1) }
  step_agree {m m'} h := by
    refine ⟨h.regs, ?_⟩
    rintro a rfl
    simp only [Function.update_self, h.mem _ rfl]

theorem counting_regs (m : Machine) (k : Nat) : (counting.step^[k] m).regs = m.regs := by
  induction k with
  | zero => rfl
  | succ k ih =>
    rw [Function.iterate_succ_apply']
    exact ih

theorem counting_noRedZone : NoRedZone counting ⟨fun _ => 0x8000#64, fun _ => 0#64⟩ where
  rsp := Set.mem_univ _
  below k := by
    rintro a rfl
    rw [alignedStack, counting_regs]
    decide

/-- The handler changes a register. -/
theorem interrupts_transparent_counting : ∃ m',
    Run (counting.Step (Interruption counting.toUses 0x100000#64 fun _ => 0))
      ⟨fun _ => 0x8000#64, fun _ => 0#64⟩ [none, some 0x21, none] m' ∧
    m'.mem 0x9000#64 = 2#64 := by
  have hvector : 0x21 < cIDTSize := by decide
  have hinterrupt : ∀ m, ∃ m', Interruption counting.toUses 0x100000#64 (fun _ => 0) m 0x21 m' :=
    fun m => ⟨_, hvector, _, _, rfl, returns_set_rax _, fun _ _ => rfl, interrupt_eq hvector⟩
  obtain ⟨m', hm'⟩ := hinterrupt (counting.step ⟨fun _ => 0x8000#64, fun _ => 0#64⟩)
  have hrun := ((Run.single (Code.Step.step (c := counting))).snoc (.interruption hm')).snoc .step
  exact ⟨_, hrun, (interrupts_transparent counting_noRedZone hrun).mem _ rfl⟩

/-! ## Traps -/

/-- What `printStackError` prints. -/
def printStackError (m : Machine) (stackpointer : BitVec 64) (errorCode : Bool) :
    List (String × BitVec 64) :=
  let word := fun k => m.mem (above 8 stackpointer k)
  (if errorCode then
    [("SS: ", word 20), ("RSP: ", word 19), ("RFLAGS: ", word 18), ("RCS: ", word 17),
      ("RIP: ", word 16),
      ("ErrorCode: ", ((word 15).setWidth 32).setWidth 64),
      ("Faulting index if selector fault: ", (((word 15).setWidth 32) >>> 3).setWidth 64)]
  else
    [("SS: ", word 19), ("RSP: ", word 18), ("RFLAGS: ", word 17), ("RCS: ", word 16),
      ("RIP: ", word 15)]) ++
  [("RDI: ", word 14), ("RAX: ", word 13), ("RBX: ", word 12), ("RCX: ", word 11), ("RDX: ", word 10),
    ("RBP: ", word 9), ("RSI: ", word 8), ("R8: ", word 7), ("R9: ", word 6), ("R10: ", word 5),
    ("R11: ", word 4),
    ("R12: ", word 3), ("R13: ", word 2), ("R14: ", word 1), ("R15: ", word 0)]

/-- The traps for which the CPU pushes an error code. -/
def errorCodeTraps : List Nat := [8, 10, 11, 12, 13, 14, 17, 21, 29, 30]

/-- What the handler prints for a trap, before it restarts the system. The other interrupts are
dispatched. -/
def exception_irq_interrupt_c (irqNo : Nat) (stackpointer : BitVec 64) (m : Machine) :
    Option (List (String × BitVec 64)) :=
  if irqNo < 32 then some (printStackError m stackpointer (decide (8 ≤ irqNo))) else none

/-- What is printed from the delivery of a vector. The CPU pushes `errorCode` if the vector has one. -/
def printTrap (mIDT : Nat → BitVec 128) (irqNo : Nat) (errorCode : BitVec 64) (m : Machine) :
    Option (List (String × BitVec 64)) :=
  let pushed := if irqNo ∈ errorCodeTraps then some errorCode else none
  let called := atCall irqNo (deliver (gate (mIDT irqNo)) pushed m)
  exception_irq_interrupt_c irqNo (called.regs .rsi) called

/-- The registers of the interrupted code. -/
def interrupted (m : Machine) : List (String × BitVec 64) :=
  [("SS: ", m.regs .ss), ("RSP: ", m.regs .rsp), ("RFLAGS: ", m.regs .rflags), ("RCS: ", m.regs .cs),
    ("RIP: ", m.regs .rip), ("RDI: ", m.regs .rdi), ("RAX: ", m.regs .rax), ("RBX: ", m.regs .rbx),
    ("RCX: ", m.regs .rcx), ("RDX: ", m.regs .rdx), ("RBP: ", m.regs .rbp), ("RSI: ", m.regs .rsi),
    ("R8: ", m.regs .r8), ("R9: ", m.regs .r9), ("R10: ", m.regs .r10), ("R11: ", m.regs .r11),
    ("R12: ", m.regs .r12), ("R13: ", m.regs .r13), ("R14: ", m.regs .r14), ("R15: ", m.regs .r15)]

section
variable {m : Machine} {vector : Nat} {errorCode : Option (BitVec 64)} {g : Gate}

/-- The words from the stack pointer that the handler is given. -/
theorem dumped_word {k : Nat} (hk : k < (words m errorCode).length) :
    (atCall vector (deliver g errorCode m)).mem
      (above 8 ((atCall vector (deliver g errorCode m)).regs .rsi) k) =
      (words m errorCode).reverse.getD k 0 := by
  have hindex : (words m errorCode).length - k = (words m errorCode).length - 1 - k + 1 := by omega
  rw [atCall_rsi, interrupted_rsp, above_below hk.le, hindex, interrupted_word (by omega),
    List.getD_eq_getElem _ _ (by rw [List.length_reverse]; exact hk), List.getElem_reverse]

/-- The registers are printed if the handler knows whether there is an error code. -/
theorem printStackError_of_agree (hagree : (errorCode.isSome = true) ↔ 8 ≤ vector) :
    interrupted m ⊆ printStackError (atCall vector (deliver g errorCode m))
      ((atCall vector (deliver g errorCode m)).regs .rsi) (decide (8 ≤ vector)) := by
  have hword : ∀ k < (words m errorCode).length, (atCall vector (deliver g errorCode m)).mem
      (above 8 ((atCall vector (deliver g errorCode m)).regs .rsi) k) =
      (words m errorCode).reverse.getD k 0 := fun _ => dumped_word
  generalize atCall vector (deliver g errorCode m) = called at hword
  rw [length_words] at hword
  cases errorCode with
  | none =>
    rw [decide_eq_false (fun h => Bool.false_ne_true (hagree.mpr h)), printStackError]
    dsimp only
    rw [if_neg Bool.false_ne_true]
    simp only [Option.toList, List.length_nil] at hword
    simp (disch := decide) only [hword]
    exact List.Subset.refl _
  | some e =>
    rw [decide_eq_true (hagree.mp rfl), printStackError]
    dsimp only
    rw [if_pos rfl]
    simp only [Option.toList, List.length_cons, List.length_nil] at hword
    simp (disch := decide) only [hword]
    -- the lines about the error code stand after the first five
    have hsublist := ((interrupted m).take 5).sublist_append_left
      [("ErrorCode: ", (e.setWidth 32).setWidth 64),
        ("Faulting index if selector fault: ", (e.setWidth 32 >>> 3).setWidth 64)]
    exact (hsublist.append_right ((interrupted m).drop 5)).subset

/-- A trap without an error code for which the handler assumes one: `cs` is printed as `RIP`. -/
theorem not_interrupted_subset (hvector : 8 ≤ vector) (hne : m.regs .rip ≠ m.regs .cs) :
    ¬ interrupted m ⊆ printStackError (atCall vector (deliver g none m))
      ((atCall vector (deliver g none m)).regs .rsi) (decide (8 ≤ vector)) := by
  intro hsub
  have hword : (words m none).reverse.getD 16 0 = m.regs .cs := rfl
  have hmem : ("RIP: ", m.regs .rip) ∈ interrupted m := by simp [interrupted]
  replace hmem := hsub hmem
  rw [decide_eq_true hvector, printStackError] at hmem
  dsimp only at hmem
  rw [if_pos rfl, dumped_word (k := 16) (by rw [length_words]; decide), hword] at hmem
  simp [hne] at hmem

/-- The handler prints the registers of every code that is interrupted by a trap exactly if it knows
from the number of the trap whether there is an error code. -/
theorem printStackError_iff (mIDT : Nat → BitVec 128) (irqNo : Nat) :
    (∀ errorCode m, ∃ printed, printTrap mIDT irqNo errorCode m = some printed ∧
      interrupted m ⊆ printed) ↔
      irqNo < 32 ∧ (irqNo ∈ errorCodeTraps ↔ 8 ≤ irqNo) := by
  constructor
  · intro hall
    obtain ⟨printed, hprinted, hsub⟩ := hall 0 ⟨fun r => if r = .rip then 1 else 0, fun _ => 0⟩
    rw [printTrap, exception_irq_interrupt_c, Option.ite_none_right_eq_some,
      Option.some_inj] at hprinted
    obtain ⟨htrap, rfl⟩ := hprinted
    refine ⟨htrap, ?_⟩
    by_contra hagree
    have herror : ∀ irqNo ∈ errorCodeTraps, 8 ≤ irqNo := by decide
    have hassumed : irqNo ∉ errorCodeTraps := fun hmem => hagree (iff_of_true hmem (herror _ hmem))
    have hge : 8 ≤ irqNo := Classical.byContradiction fun h => hagree (iff_of_false hassumed h)
    rw [if_neg hassumed] at hsub
    exact not_interrupted_subset hge (by decide) hsub
  · rintro ⟨htrap, hagree⟩ errorCode m
    refine ⟨_, if_pos htrap, printStackError_of_agree ?_⟩
    rw [← hagree]
    split
    · exact iff_of_true rfl ‹_›
    · exact iff_of_false Bool.false_ne_true ‹_›

end

end X86

end CyPhOS
