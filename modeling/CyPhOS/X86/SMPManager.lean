import Mathlib.Data.List.Induction
import Mathlib.Logic.Function.Basic

/-! # The CPUs of an x86 system

`addAPICID` numbers the CPUs in the order in which they are found, up to `NR_CPUS` of them. An APIC
identifier stands for the CPU that it was registered for (`Registers.numbersCpus`).
-/

namespace CyPhOS

/-- `CPU_ENTRY_t` -/
structure CpuEntry where
  apicID : UInt8
  processorID : UInt8
  enabled : Bool
  bsp : Bool
  ignore : Bool
  deriving DecidableEq, Repr

/-- The registry of the CPUs. `NR_CPUS` is less than 256, and so are all CPU numbers. -/
structure SMPManager (nrCpus : Nat) where
  mAPICIDs : Nat → CpuEntry
  mCPUMapping : UInt8 → Nat
  mRegisteredCPUs : Nat
  le : mRegisteredCPUs ≤ nrCpus

namespace SMPManager

variable {nrCpus : Nat}

/-- The constructor, on zeroed storage. -/
def new (nrCpus : Nat) : SMPManager nrCpus where
  mAPICIDs _ := ⟨0, 0, false, false, false⟩
  mCPUMapping _ := 0
  mRegisteredCPUs := 0
  le := Nat.zero_le _

def addAPICID (m : SMPManager nrCpus) (apicID processorID : UInt8) (ignore : Bool) :
    SMPManager nrCpus :=
  if h : m.mRegisteredCPUs = nrCpus then m
  else
    { mAPICIDs := Function.update m.mAPICIDs m.mRegisteredCPUs
        { m.mAPICIDs m.mRegisteredCPUs with apicID, processorID, ignore }
      mCPUMapping := Function.update m.mCPUMapping apicID m.mRegisteredCPUs
      mRegisteredCPUs := m.mRegisteredCPUs + 1
      le := Nat.lt_of_le_of_ne m.le h }

def translateAPICIDToCPUID (m : SMPManager nrCpus) (apicID : UInt8) : Nat := m.mCPUMapping apicID

/-! ## What is registered -/

/-- The CPUs are numbered in the order of the list. -/
structure Registers (m : SMPManager nrCpus) (ids : List UInt8) : Prop where
  count : m.mRegisteredCPUs = ids.length
  entry : ∀ (cpu : Nat) (h : cpu < ids.length), (m.mAPICIDs cpu).apicID = ids[cpu]
  mapping : ∀ (cpu : Nat) (h : cpu < ids.length), m.mCPUMapping ids[cpu] = cpu

variable {m : SMPManager nrCpus} {ids : List UInt8} {apicID processorID : UInt8} {ignore : Bool}

theorem registers_new : (new nrCpus).Registers [] :=
  ⟨rfl, fun _ h => absurd h (Nat.not_lt_zero _), fun _ h => absurd h (Nat.not_lt_zero _)⟩

theorem Registers.full (h : m.Registers ids) (hfull : ids.length = nrCpus) :
    (m.addAPICID apicID processorID ignore).Registers ids := by
  rwa [addAPICID, dif_pos (h.count.trans hfull)]

theorem Registers.add (h : m.Registers ids) (hroom : ids.length ≠ nrCpus) (hnew : apicID ∉ ids) :
    (m.addAPICID apicID processorID ignore).Registers (ids ++ [apicID]) := by
  rw [addAPICID, dif_neg (h.count ▸ hroom)]
  refine ⟨by simp [h.count], fun cpu hcpu => ?_, fun cpu hcpu => ?_⟩
  · rcases Nat.lt_or_ge cpu ids.length with hlt | hge
    · rw [List.getElem_append_left hlt]
      dsimp only
      rw [Function.update_of_ne (h.count ▸ Nat.ne_of_lt hlt), h.entry cpu hlt]
    · obtain rfl : cpu = ids.length := by simp at hcpu; omega
      simp [h.count]
  · rcases Nat.lt_or_ge cpu ids.length with hlt | hge
    · have hne : ids[cpu] ≠ apicID := fun heq => hnew (heq ▸ List.getElem_mem hlt)
      rw [List.getElem_append_left hlt]
      dsimp only
      rw [Function.update_of_ne hne, h.mapping cpu hlt]
    · obtain rfl : cpu = ids.length := by simp at hcpu; omega
      simp [h.count]

/-- Registering distinct CPUs keeps the first `NR_CPUS` of them. -/
theorem registers_foldl {entries : List (UInt8 × UInt8)} (hdistinct : (entries.map (·.1)).Nodup) :
    (entries.foldl (fun m e => m.addAPICID e.1 e.2 true) (new nrCpus)).Registers
      ((entries.map (·.1)).take nrCpus) := by
  induction entries using List.reverseRecOn with
  | nil => simpa using registers_new
  | append_singleton entries e ih =>
    rw [List.map_append] at hdistinct ⊢
    obtain ⟨hdistinct, -, hnew⟩ := List.nodup_append.mp hdistinct
    have hnew : e.1 ∉ entries.map (·.1) := fun h => hnew e.1 h e.1 (by simp) rfl
    have ih := ih hdistinct
    rw [List.foldl_append]
    rcases Nat.lt_or_ge entries.length nrCpus with hlt | hge
    · rw [List.take_of_length_le (by simpa using Nat.le_of_lt hlt)] at ih
      rw [List.take_of_length_le (by simpa using Nat.succ_le_of_lt hlt)]
      exact ih.add (by simpa using Nat.ne_of_lt hlt) hnew
    · rw [List.take_append_of_le_length (by simpa using hge)]
      exact ih.full (by simp [hge])

/-- Each registered CPU has a number of its own, below `NR_CPUS`. -/
structure NumbersCpus (m : SMPManager nrCpus) : Prop where
  lt : ∀ cpu < m.mRegisteredCPUs, m.translateAPICIDToCPUID (m.mAPICIDs cpu).apicID < nrCpus
  injective : ∀ cpu < m.mRegisteredCPUs, ∀ cpu' < m.mRegisteredCPUs,
    m.translateAPICIDToCPUID (m.mAPICIDs cpu).apicID =
      m.translateAPICIDToCPUID (m.mAPICIDs cpu').apicID →
    (m.mAPICIDs cpu).apicID = (m.mAPICIDs cpu').apicID

theorem Registers.numbersCpus (h : m.Registers ids) : m.NumbersCpus := by
  have hcpu : ∀ cpu < m.mRegisteredCPUs,
      m.translateAPICIDToCPUID (m.mAPICIDs cpu).apicID = cpu := fun cpu hlt => by
    rw [h.count] at hlt
    rw [h.entry cpu hlt, translateAPICIDToCPUID, h.mapping cpu hlt]
  refine ⟨fun cpu hlt => ?_, fun cpu hlt cpu' hlt' heq => ?_⟩
  · rw [hcpu cpu hlt]
    exact Nat.lt_of_lt_of_le hlt m.le
  · rw [hcpu cpu hlt, hcpu cpu' hlt'] at heq
    rw [heq]

end SMPManager

end CyPhOS
