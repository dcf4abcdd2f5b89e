import Mathlib.Algebra.GroupWithZero.Nat
import CyPhOS.Lib.Run

/-! # The coherency test

Four CPUs pass `holding_pen` round. The one whose turn it is reads every element of `testarray`,
compares it with what the CPU before it must have written, and writes its own. Each access to the
array and to `holding_pen` is one step here, so the steps of the CPUs interleave as on a memory that
is coherent. On such a memory the test never reports an error, and the CPUs take turns
(`coherency_test`): what it reports is incoherence.
-/

namespace CyPhOS

open Transition

namespace CoherencyTest

/-- Where a CPU is, named after what it does next. -/
inductive Control
  | fills (i : Nat)
  | spins
  | loads (i : Nat)
  | compares (i : Nat) (currentValue : BitVec 32)
  | stores (i : Nat)
  | readsPen
  | writesPen (value : BitVec 32)

structure State where
  holding_pen : BitVec 32
  testarray : Nat → BitVec 32
  control : Fin 4 → Control

inductive Label
  | error (cpu : Fin 4) (i : Nat)
  | passes (cpu : Fin 4)
  | other (cpu : Fin 4)
  deriving DecidableEq

/-- What a CPU writes to an element. -/
def value (i : Nat) (cpu : Nat) : BitVec 32 :=
  BitVec.ofNat 32 i <<< 2 &&& ~~~3#32 ||| BitVec.ofNat 32 cpu

/-- The first argument of `checkCoherency` on each CPU. -/
def checkCPU (cpu : Fin 4) : Nat :=
  match cpu.val with
  | 0 => 3
  | 1 => 0
  | 2 => 1
  | _ => 2

/-- CPU 0 fills the array, the others wait for their turn. -/
def State.initial (testarray : Nat → BitVec 32) : State where
  holding_pen := 0#32
  testarray := testarray
  control cpu := if cpu.val = 0 then .fills 0 else .spins

def State.goto (m : State) (cpu : Fin 4) (control : Control) : State :=
  { m with control := Function.update m.control cpu control }

def State.store (m : State) (i : Nat) (value : BitVec 32) : State :=
  { m with testarray := Function.update m.testarray i value }

/-- The steps with an array of `size` elements. -/
inductive Step (size : Nat) : State → Label → State → Prop
  | fill {m cpu i} (hcontrol : m.control cpu = .fills i) (hi : i < size) :
      Step size m (.other cpu) ((m.store i (value i 3)).goto cpu (.fills (i + 1)))
  | filled {m cpu i} (hcontrol : m.control cpu = .fills i) (hi : ¬ i < size) :
      Step size m (.other cpu) (m.goto cpu .spins)
  | enter {m cpu} (hcontrol : m.control cpu = .spins)
      (hturn : m.holding_pen % 4#32 = BitVec.ofNat 32 cpu.val) :
      Step size m (.other cpu) (m.goto cpu (.loads 0))
  | load {m cpu i} (hcontrol : m.control cpu = .loads i) (hi : i < size) :
      Step size m (.other cpu) (m.goto cpu (.compares i (m.testarray i)))
  | error {m cpu i currentValue} (hcontrol : m.control cpu = .compares i currentValue)
      (hvalue : currentValue ≠ value i (checkCPU cpu)) :
      Step size m (.error cpu i) (m.goto cpu .spins)
  | equal {m cpu i currentValue} (hcontrol : m.control cpu = .compares i currentValue)
      (hvalue : currentValue = value i (checkCPU cpu)) :
      Step size m (.other cpu) (m.goto cpu (.stores i))
  | store {m cpu i} (hcontrol : m.control cpu = .stores i) :
      Step size m (.other cpu) ((m.store i (value i cpu.val)).goto cpu (.loads (i + 1)))
  | checked {m cpu i} (hcontrol : m.control cpu = .loads i) (hi : ¬ i < size) :
      Step size m (.other cpu) (m.goto cpu .readsPen)
  | readPen {m cpu} (hcontrol : m.control cpu = .readsPen) :
      Step size m (.other cpu) (m.goto cpu (.writesPen m.holding_pen))
  | writePen {m cpu value} (hcontrol : m.control cpu = .writesPen value) :
      Step size m (.passes cpu) { m.goto cpu .spins with holding_pen := value + 1#32 }

variable {size : Nat} {m m' : State} {l : Label} {ls : List Label} {cpu : Fin 4}

/-- The CPU is at the elements of the array. -/
def Control.accesses : Control → Bool
  | fills _ | loads _ | compares _ _ | stores _ => true
  | _ => false

/-- The CPU has passed the elements before `i`, and those from there on are as the CPU before it
has left them. -/
def Reached (size : Nat) (testarray : Nat → BitVec 32) (cpu : Fin 4) (i : Nat) : Prop :=
  i ≤ size ∧ ∀ j < size, testarray j = value j (if j < i then cpu.val else checkCPU cpu)

/-- Where a CPU is whose turn it is, after `turns` checks. -/
def Agrees (size : Nat) (testarray : Nat → BitVec 32) (pen : BitVec 32) (turns : Nat)
    (cpu : Fin 4) : Control → Prop
  | .fills i => turns = 0 ∧ cpu.val = 0 ∧ i ≤ size ∧ ∀ j < i, testarray j = value j 3
  | .spins => Reached size testarray cpu 0
  | .loads i => Reached size testarray cpu i
  | .compares i currentValue =>
    Reached size testarray cpu i ∧ i < size ∧ currentValue = testarray i
  | .stores i => Reached size testarray cpu i ∧ i < size
  | .readsPen => Reached size testarray cpu size
  | .writesPen value => Reached size testarray cpu size ∧ value = pen

structure Inv (size : Nat) (m : State) (turns : Nat) : Prop where
  pen : m.holding_pen = BitVec.ofNat 32 turns
  holder : ∀ cpu : Fin 4, cpu.val = turns % 4 →
    Agrees size m.testarray m.holding_pen turns cpu (m.control cpu)
  others : ∀ cpu : Fin 4, cpu.val ≠ turns % 4 → m.control cpu = .spins

theorem Inv.initial (testarray : Nat → BitVec 32) : Inv size (.initial testarray) 0 where
  pen := rfl
  holder cpu hcpu := by
    simp only [State.initial]
    rw [if_pos hcpu]
    exact ⟨rfl, hcpu, Nat.zero_le _, fun j hj => absurd hj (Nat.not_lt_zero j)⟩
  others cpu hcpu := if_neg hcpu

/-- A step of the CPU whose turn it is, which stays so. -/
theorem Inv.goto {turns : Nat} (h : Inv size m turns) (hcpu : cpu.val = turns % 4) {c : Control}
    {testarray : Nat → BitVec 32} (hc : Agrees size testarray m.holding_pen turns cpu c) :
    Inv size { m with testarray := testarray, control := Function.update m.control cpu c }
      turns where
  pen := h.pen
  holder i hi := by
    obtain rfl : i = cpu := Fin.ext (hi.trans hcpu.symm)
    simpa only [Function.update_self] using hc
  others i hi := by
    have hne : i ≠ cpu := by
      rintro rfl
      exact hi hcpu
    simpa only [Function.update_of_ne hne] using h.others i hi

theorem Inv.turn {turns : Nat} (h : Inv size m turns) (cpu : Fin 4)
    (hc : m.control cpu ≠ .spins) : cpu.val = turns % 4 := by
  by_contra hne
  exact hc (h.others cpu hne)

theorem pen_mod (turns : Nat) : (BitVec.ofNat 32 turns % 4#32).toNat = turns % 4 := by
  rw [BitVec.toNat_umod, BitVec.toNat_ofNat]
  exact Nat.mod_mod_of_dvd turns (by decide)

theorem checkCPU_zero (h : cpu.val = 0) : checkCPU cpu = 3 := by
  simp only [checkCPU, h]

/-- The CPU before the next one is the one whose turn it was. -/
theorem checkCPU_next {next : Fin 4} {turns : Nat} (h : next.val = (turns + 1) % 4) :
    checkCPU next = turns % 4 := by
  have hcases : next.val = 0 ∨ next.val = 1 ∨ next.val = 2 ∨ next.val = 3 := by omega
  rcases hcases with hnext | hnext | hnext | hnext <;> simp only [checkCPU, hnext] <;> omega

theorem Reached.store {testarray : Nat → BitVec 32} {i : Nat} (h : Reached size testarray cpu i)
    (hi : i < size) :
    Reached size (Function.update testarray i (value i cpu.val)) cpu (i + 1) := by
  refine ⟨hi, fun j hj => ?_⟩
  rcases eq_or_ne j i with rfl | hne
  · rw [Function.update_self, if_pos (Nat.lt_succ_self j)]
  · rw [Function.update_of_ne hne, h.2 j hj]
    have hiff : j < i ↔ j < i + 1 := by omega
    simp only [hiff]

/-- A step leaves the turn, or it is the end of one. No step is an error. -/
theorem Inv.step {turns : Nat} (h : Inv size m turns) (hstep : Step size m l m') :
    (∀ cpu i, l ≠ .error cpu i) ∧
      ((∀ cpu, l ≠ .passes cpu) ∧ Inv size m' turns ∨
        (∃ cpu, l = .passes cpu ∧ cpu.val = turns % 4) ∧ Inv size m' (turns + 1)) := by
  cases hstep with
  | @fill cpu i hcontrol hi =>
    have hturn := h.turn cpu (by simp [hcontrol])
    obtain ⟨hturns, hcpu, -, hfilled⟩ : Agrees _ _ _ _ _ (.fills i) := hcontrol ▸ h.holder cpu hturn
    refine ⟨by simp, .inl ⟨by simp, h.goto hturn ⟨hturns, hcpu, hi, fun j hj => ?_⟩⟩⟩
    rcases eq_or_ne j i with rfl | hne
    · exact Function.update_self ..
    · exact (Function.update_of_ne hne ..).trans (hfilled j (by omega))
  | @filled cpu i hcontrol hi =>
    have hturn := h.turn cpu (by simp [hcontrol])
    obtain ⟨-, hcpu, -, hfilled⟩ : Agrees _ _ _ _ _ (.fills i) := hcontrol ▸ h.holder cpu hturn
    refine ⟨by simp, .inl ⟨by simp, h.goto hturn ⟨Nat.zero_le _, fun j hj => ?_⟩⟩⟩
    rw [hfilled j (by omega), if_neg (Nat.not_lt_zero j), checkCPU_zero hcpu]
  | @enter cpu hcontrol hpen =>
    have hturn : cpu.val = turns % 4 := by
      have hmod := congrArg BitVec.toNat hpen
      rw [h.pen, pen_mod, BitVec.toNat_ofNat] at hmod
      omega
    have hreached : Agrees _ _ _ _ _ .spins := hcontrol ▸ h.holder cpu hturn
    exact ⟨by simp, .inl ⟨by simp, h.goto hturn hreached⟩⟩
  | @load cpu i hcontrol hi =>
    have hturn := h.turn cpu (by simp [hcontrol])
    have hreached : Agrees _ _ _ _ _ (.loads i) := hcontrol ▸ h.holder cpu hturn
    exact ⟨by simp, .inl ⟨by simp, h.goto hturn ⟨hreached, hi, rfl⟩⟩⟩
  | @error cpu i currentValue hcontrol hvalue =>
    have hturn := h.turn cpu (by simp [hcontrol])
    obtain ⟨hreached, hi, rfl⟩ : Agrees _ _ _ _ _ (.compares i currentValue) :=
      hcontrol ▸ h.holder cpu hturn
    refine absurd ?_ hvalue
    rw [hreached.2 i hi, if_neg (Nat.lt_irrefl i)]
  | @equal cpu i currentValue hcontrol hvalue =>
    have hturn := h.turn cpu (by simp [hcontrol])
    obtain ⟨hreached, hi, -⟩ : Agrees _ _ _ _ _ (.compares i currentValue) :=
      hcontrol ▸ h.holder cpu hturn
    exact ⟨by simp, .inl ⟨by simp, h.goto hturn ⟨hreached, hi⟩⟩⟩
  | @store cpu i hcontrol =>
    have hturn := h.turn cpu (by simp [hcontrol])
    obtain ⟨hreached, hi⟩ : Agrees _ _ _ _ _ (.stores i) := hcontrol ▸ h.holder cpu hturn
    exact ⟨by simp, .inl ⟨by simp, h.goto hturn (hreached.store hi)⟩⟩
  | @checked cpu i hcontrol hi =>
    have hturn := h.turn cpu (by simp [hcontrol])
    have hreached : Reached _ _ _ i := hcontrol ▸ h.holder cpu hturn
    obtain rfl : i = size := Nat.le_antisymm hreached.1 (Nat.not_lt.mp hi)
    exact ⟨by simp, .inl ⟨by simp, h.goto hturn hreached⟩⟩
  | @readPen cpu hcontrol =>
    have hturn := h.turn cpu (by simp [hcontrol])
    have hreached : Agrees _ _ _ _ _ .readsPen := hcontrol ▸ h.holder cpu hturn
    exact ⟨by simp, .inl ⟨by simp, h.goto hturn ⟨hreached, rfl⟩⟩⟩
  | @writePen cpu pen hcontrol =>
    have hturn := h.turn cpu (by simp [hcontrol])
    obtain ⟨hreached, rfl⟩ : Agrees _ _ _ _ _ (.writesPen pen) := hcontrol ▸ h.holder cpu hturn
    refine ⟨by simp, .inr ⟨⟨cpu, rfl, hturn⟩, ?_⟩⟩
    have hspins : ∀ i, Function.update m.control cpu .spins i = .spins := by
      intro i
      rcases eq_or_ne i cpu with rfl | hne
      · rw [Function.update_self]
      · rw [Function.update_of_ne hne]
        refine h.others i fun hi => hne ?_
        exact Fin.ext (hi.trans hturn.symm)
    refine ⟨?_, fun next hnext => ?_, fun i _ => hspins i⟩
    · change m.holding_pen + 1#32 = _
      rw [h.pen]
      exact BitVec.ofNat_add_ofNat ..
    · change Agrees _ _ _ _ _ (Function.update m.control cpu .spins next)
      rw [hspins next]
      refine ⟨Nat.zero_le _, fun j hj => ?_⟩
      have hleft := hreached.2 j hj
      rw [if_pos hj, hturn] at hleft
      rw [if_neg (Nat.not_lt_zero j), checkCPU_next hnext]
      exact hleft

/-- The CPU that has ended its turn. -/
def Label.passedBy : Label → Option Nat
  | passes cpu => some cpu.val
  | _ => none

/-- In every run no error is reported, a CPU at the array is the one whose turn it is, and the CPUs
take turns. -/
theorem coherency_test {testarray : Nat → BitVec 32}
    (hrun : Run (Step size) (.initial testarray) ls m) :
    (∀ cpu i, .error cpu i ∉ ls) ∧
      ∃ turns, m.holding_pen = BitVec.ofNat 32 turns ∧
        (∀ cpu, (m.control cpu).accesses = true →
          cpu.val = turns % 4 ∧ m.holding_pen % 4#32 = BitVec.ofNat 32 cpu.val) ∧
        ls.filterMap Label.passedBy = (List.range turns).map (· % 4) := by
  obtain ⟨turns, h, herror, hturns⟩ : ∃ turns, Inv size m turns ∧ (∀ cpu i, .error cpu i ∉ ls) ∧
      ls.filterMap Label.passedBy = (List.range turns).map (· % 4) := by
    induction hrun with
    | nil => exact ⟨0, .initial testarray, by simp, rfl⟩
    | @snoc ls m l m' _ hstep ih =>
      obtain ⟨turns, h, herror, hturns⟩ := ih
      obtain ⟨hok, hnext⟩ := h.step hstep
      have herror' : ∀ cpu i, .error cpu i ∉ ls ++ [l] := fun cpu i hmem =>
        (List.mem_append.mp hmem).elim (herror cpu i) fun hl =>
          hok cpu i (List.mem_singleton.mp hl).symm
      rcases hnext with ⟨hl, hinv⟩ | ⟨⟨cpu, rfl, hcpu⟩, hinv⟩
      · refine ⟨turns, hinv, herror', ?_⟩
        rw [List.filterMap_append, hturns]
        cases l with
        | passes cpu => exact absurd rfl (hl cpu)
        | error | other => exact List.append_nil _
      · refine ⟨turns + 1, hinv, herror', ?_⟩
        rw [List.filterMap_append, hturns, List.range_succ, List.map_append, List.map_singleton,
          ← hcpu]
        rfl
  refine ⟨herror, turns, h.pen, fun cpu hcpu => ?_, hturns⟩
  have hturn := h.turn cpu fun hspins => by simp [hspins, Control.accesses] at hcpu
  refine ⟨hturn, BitVec.eq_of_toNat_eq ?_⟩
  rw [h.pen, pen_mod, BitVec.toNat_ofNat, hturn]
  omega

/-- With an array of one element, CPU 0 fills it, checks it and passes on, and so does CPU 1. Then
CPU 2 is at the array. -/
theorem coherency_test_oneElement : ∃ m ls, Run (Step 1) (.initial fun _ => 0#32) ls m ∧
    .passes 0 ∈ ls ∧ .passes 1 ∈ ls ∧ (m.control 2).accesses = true ∧
    (∀ cpu i, .error cpu i ∉ ls) ∧ m.holding_pen % 4#32 = 2#32 := by
  have hrun₁ : Run (Step 1) (.initial fun _ => 0#32) [.other 0] _ :=
    .single (.fill rfl Nat.one_pos)
  have hrun₂ := hrun₁.snoc (l := .other 0) (.filled rfl (Nat.lt_irrefl 1))
  have hrun₃ := hrun₂.snoc (l := .other 0) (.enter rfl rfl)
  have hrun₄ := hrun₃.snoc (l := .other 0) (.load rfl Nat.one_pos)
  have hrun₅ := hrun₄.snoc (l := .other 0) (.equal rfl rfl)
  have hrun₆ := hrun₅.snoc (l := .other 0) (.store rfl)
  have hrun₇ := hrun₆.snoc (l := .other 0) (.checked rfl (Nat.lt_irrefl 1))
  have hrun₈ := hrun₇.snoc (l := .other 0) (.readPen rfl)
  have hrun₉ := hrun₈.snoc (l := .passes 0) (.writePen rfl)
  have hrun₁₀ := hrun₉.snoc (l := .other 1) (.enter rfl rfl)
  have hrun₁₁ := hrun₁₀.snoc (l := .other 1) (.load rfl Nat.one_pos)
  have hrun₁₂ := hrun₁₁.snoc (l := .other 1) (.equal rfl rfl)
  have hrun₁₃ := hrun₁₂.snoc (l := .other 1) (.store rfl)
  have hrun₁₄ := hrun₁₃.snoc (l := .other 1) (.checked rfl (Nat.lt_irrefl 1))
  have hrun₁₅ := hrun₁₄.snoc (l := .other 1) (.readPen rfl)
  have hrun₁₆ := hrun₁₅.snoc (l := .passes 1) (.writePen rfl)
  have hrun₁₇ := hrun₁₆.snoc (l := .other 2) (.enter rfl rfl)
  obtain ⟨herror, turns, -, haccesses, -⟩ := coherency_test hrun₁₇
  exact ⟨_, _, hrun₁₇, by simp, by simp, rfl, herror, (haccesses 2 rfl).2⟩

end CoherencyTest
end CyPhOS
