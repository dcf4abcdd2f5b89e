import CyPhOS.CacheManagement.PrefetchedWays
import CyPhOS.Lib.WayCache

/-! # The port of the PL310

The PL310 is shared by the CPUs. Each way can be locked for the accesses of a CPU, in a register for
data and one for instructions. `prefetchDataToWay` takes `pPL310Lock`, unlocks the way, touches the
lines of the range and locks the way again; `evictCacheWay` cleans and invalidates the way.

`Step` interleaves the register accesses and the prefetches of all CPUs with the steps of the cache
management and with accesses of the CPUs to any lines. What the cache does with a line is left to
`WayCache.Access`: a line that misses may come into any way that is unlocked for the CPU.
-/

namespace CyPhOS

open Transition CacheLines WayCache

open GenericCacheManagement (SharedState SharedLabel SharedStep chunks preloadEnd nextStart)

/-- Components begin on line boundaries and on one side of `2 ^ 31`, and none begins where another one
ends. -/
structure MemoryLayout.LineAligned {O : Type} (layout : MemoryLayout O) : Prop where
  way : 32 ∣ layout.getCacheWaySize
  start : ∀ osc, 32 ∣ layout.getOSCStart osc
  gap : ∀ osc osc', osc ≠ osc' → layout.getOSCEnd osc ≠ layout.getOSCStart osc'
  lt : ∀ osc, layout.getOSCEnd osc < 2 ^ 32
  side : ∀ osc, layout.getOSCEnd osc < 2 ^ 31 - 32 ∨ 2 ^ 31 ≤ layout.getOSCStart osc

namespace PL310CacheManagement

/-! ## The lines of a part -/

variable {O : Type} {layout : MemoryLayout O} {osc osc' : O} {chunk chunk' : Nat × Nat}
  {line line' oscStart oscEnd start end_ textEnd r0 fuel : Nat}

/-- The lines that a prefetch of the range touches. The line at the end is one of them. -/
def Touched (start end_ line : Nat) : Prop := 32 ∣ line ∧ start ≤ line ∧ line ≤ end_

theorem mem_lines_iff (hstart : 32 ∣ start) :
    line ∈ lines 32 start (end_ + 1) ↔ Touched start end_ line := by
  rw [mem_lines (by decide) hstart, Meets, Touched]
  omega

theorem nextLine_le_end_iff (hr0 : 32 ∣ r0) (hle : r0 ≤ end_) (hend : end_ < 2 ^ 32)
    (hside : end_ < 2 ^ 31 - 32 ∨ 2 ^ 31 ≤ r0) :
    signed end_ ≥ signed (nextLine r0) ↔ r0 + 32 ≤ end_ := by
  rw [signed, signed, nextLine]
  split <;> split <;> omega

/-- On one side of `2 ^ 31` the loop touches the lines from the start to the end. -/
theorem prefetchLoop_touches (hr0 : 32 ∣ r0) (hle : r0 ≤ end_) (hend : end_ < 2 ^ 32)
    (hside : end_ < 2 ^ 31 - 32 ∨ 2 ^ 31 ≤ r0) (hfuel : end_ - r0 < 32 * fuel) :
    prefetchLoop end_ textEnd fuel r0 = .ok ((lines 32 r0 (end_ + 1)).map (touch textEnd)) := by
  induction fuel generalizing r0 with
  | zero => omega
  | succ fuel ih =>
    rw [prefetchLoop, lines_of_lt (by decide) (Nat.lt_succ_of_le hle)]
    have hiff := nextLine_le_end_iff hr0 hle hend hside
    split
    · next hgo =>
      have hnext := hiff.mp hgo
      have hmod : nextLine r0 = r0 + 32 := Nat.mod_eq_of_lt (by omega)
      rw [hmod, ih (by omega) hnext (by omega) (by omega)]
      rfl
    · next hstop =>
      rw [lines_of_le (by decide) (by have := hstop ∘ hiff.mpr; omega)]
      rfl

theorem prefetchDataToWay_touches (hstart : 32 ∣ start) (hle : start ≤ end_) (hend : end_ < 2 ^ 32)
    (hside : end_ < 2 ^ 31 - 32 ∨ 2 ^ 31 ≤ start) : prefetchDataToWay start end_ textEnd =
      .ok ((lines 32 start (end_ + 1)).map (touch textEnd)) :=
  prefetchLoop_touches hstart hle hend hside (by omega)

/-- A part begins on a line boundary, ends in its component and is smaller than a way. -/
theorem chunk_spec (hway : 32 ∣ layout.getCacheWaySize) (hstart : 32 ∣ oscStart)
    (h : chunk ∈ chunks layout oscStart oscEnd) :
    32 ∣ chunk.1 ∧ oscStart ≤ chunk.1 ∧ chunk.1 ≤ chunk.2 ∧ chunk.1 < oscEnd ∧ chunk.2 ≤ oscEnd ∧
      chunk.2 < chunk.1 + layout.getCacheWaySize := by
  have hfour := layout.four_le
  induction oscStart using GenericCacheManagement.chunks.induct layout oscEnd with
  | case1 oscStart hlt _ ih =>
    rw [GenericCacheManagement.chunks_of_lt hlt] at h
    rcases List.mem_cons.mp h with rfl | h
    · refine ⟨hstart, le_rfl, ?_⟩
      dsimp only
      rw [preloadEnd]
      split <;> omega
    · have hnext := GenericCacheManagement.lt_nextStart layout hlt
      have hmore : nextStart (preloadEnd layout oscStart oscEnd) oscEnd < oscEnd :=
        (GenericCacheManagement.le_of_mem_chunks h).trans_lt
          (GenericCacheManagement.lt_of_mem_chunks h)
      have haligned : 32 ∣ nextStart (preloadEnd layout oscStart oscEnd) oscEnd := by
        rw [nextStart, preloadEnd] at hmore ⊢
        split at hmore <;> split at hmore <;> split <;> omega
      obtain ⟨hdvd, hle, hrest⟩ := ih haligned h
      exact ⟨hdvd, hnext.le.trans hle, hrest⟩
  | case2 oscStart hdone =>
    rw [GenericCacheManagement.chunks_of_not_lt hdone] at h
    cases h

/-- The parts of a component follow one another. -/
theorem chunks_pairwise (layout : MemoryLayout O) (oscStart oscEnd : Nat) :
    (chunks layout oscStart oscEnd).Pairwise fun x y => x.2 < y.1 := by
  induction oscStart using GenericCacheManagement.chunks.induct layout oscEnd with
  | case1 oscStart hlt _ ih =>
    rw [GenericCacheManagement.chunks_of_lt hlt]
    refine List.pairwise_cons.mpr ⟨fun chunk h => ?_, ih⟩
    have hle := GenericCacheManagement.le_of_mem_chunks h
    have hmore := hle.trans_lt (GenericCacheManagement.lt_of_mem_chunks h)
    refine lt_of_lt_of_le ?_ hle
    rw [nextStart] at hmore ⊢
    split at hmore <;> split <;> omega
  | case2 oscStart hdone =>
    rw [GenericCacheManagement.chunks_of_not_lt hdone]
    exact .nil

/-- No line is touched for two parts. -/
theorem chunk_unique (hlayout : layout.Disjoint) (hlines : layout.LineAligned)
    (h : chunk ∈ chunks layout (layout.getOSCStart osc) (layout.getOSCEnd osc))
    (h' : chunk' ∈ chunks layout (layout.getOSCStart osc') (layout.getOSCEnd osc'))
    (hline : Touched chunk.1 chunk.2 line) (hline' : Touched chunk'.1 chunk'.2 line) :
    chunk' = chunk := by
  obtain ⟨-, hle, -, hlt, hend, -⟩ := chunk_spec hlines.way (hlines.start osc) h
  obtain ⟨-, hle', -, hlt', hend', -⟩ := chunk_spec hlines.way (hlines.start osc') h'
  obtain ⟨-, hfirst, hlast⟩ := hline
  obtain ⟨-, hfirst', hlast'⟩ := hline'
  have hosc : osc' = osc := by
    by_contra hne
    have hgap := hlines.gap osc osc' (Ne.symm hne)
    have hgap' := hlines.gap osc' osc hne
    have hshared : ∀ a, layout.getOSCStart osc ≤ a → a < layout.getOSCEnd osc →
        layout.getOSCStart osc' ≤ a → ¬ a < layout.getOSCEnd osc' :=
      fun a h₁ h₂ h₃ h₄ => hne (hlayout.eq_of_mem h₃ h₄ h₁ h₂)
    -- the line before the end of the component that ends first belongs to both
    have hshared' := hshared (min line (min (layout.getOSCEnd osc) (layout.getOSCEnd osc') - 1))
    omega
  subst hosc
  by_contra hne
  let Apart (x y : Nat × Nat) : Prop := x.1 ≤ line → line ≤ x.2 → y.1 ≤ line → ¬ line ≤ y.2
  have : Std.Symm Apart := ⟨fun x y hxy h₁ h₂ h₃ h₄ => hxy h₃ h₄ h₁ h₂⟩
  have hapart : (chunks layout (layout.getOSCStart osc') (layout.getOSCEnd osc')).Pairwise Apart :=
    (chunks_pairwise layout _ _).imp fun hlt h₁ h₂ h₃ h₄ => by omega
  exact hapart.forall h h' (Ne.symm hne) hfirst hlast hfirst' hlast'

/-- The set of a line. -/
def lineIndex (layout : MemoryLayout O) (line : Nat) : Nat :=
  line / 32 % (layout.getCacheWaySize / 32)

/-- The lines of a part go to different sets. -/
theorem lineIndex_injective (hway : 32 ∣ layout.getCacheWaySize)
    (hsize : end_ < start + layout.getCacheWaySize) (hline : Touched start end_ line)
    (hline' : Touched start end_ line') (h : lineIndex layout line' = lineIndex layout line) :
    line' = line := by
  obtain ⟨n, hn⟩ := hway
  obtain ⟨⟨i, rfl⟩, hfirst, hlast⟩ := hline
  obtain ⟨⟨j, rfl⟩, hfirst', hlast'⟩ := hline'
  have hmod : j % n = i % n := by simpa [lineIndex, hn] using h
  have hle : ∀ {i j : Nat}, j % n = i % n → j - i < n → j ≤ i := by
    intro i j hmod hlt
    have hzero := Nat.sub_mod_eq_zero_of_mod_eq hmod
    rw [Nat.mod_eq_of_lt hlt] at hzero
    omega
  have hij := hle hmod (by omega)
  have hji := hle hmod.symm (by omega)
  omega

/-! ## The lockdown registers -/

def PL310_CACHE_WAYS : Nat := 16

def cMaxLockdownRegisters : Nat := 8

/-- The registers that are gone through to lock or unlock a way, the one that the accesses of a CPU
are subject to, and whether instructions are prefetched with `PLDW`
(`CONFIG_CACHE_PLDW_FOR_INSTRUCTION`). -/
structure LockdownConfig (C : Type) where
  offsets : List Nat
  register : C → Nat
  register_mem : ∀ cpu, register cpu ∈ offsets
  pldwForInstruction : Bool

/-- `pl310_LockCacheWay_All_Master`: each CPU has a register, and a call goes through all of them. -/
def lockdownAllMaster : LockdownConfig (Fin cMaxLockdownRegisters) where
  offsets := List.range cMaxLockdownRegisters
  register cpu := cpu.val
  register_mem cpu := List.mem_range.mpr cpu.isLt
  pldwForInstruction := true

/-- The value that is written back to a register. -/
def lockdownValue (register : BitVec 32) (way : Nat) (lockdown : Bool) : BitVec 32 :=
  if lockdown then register ||| (1#32 <<< way) else register &&& ~~~(1#32 <<< way)

theorem getLsbD_lockdownValue {register : BitVec 32} {way v : Nat} {lockdown : Bool} (hv : v < 32) :
    (lockdownValue register way lockdown).getLsbD v =
      if v = way then lockdown else register.getLsbD v := by
  have hbit : (1#32 <<< way).getLsbD v = decide (v = way) := by
    simp only [BitVec.getLsbD_shiftLeft, BitVec.getLsbD_one, hv, decide_true, Bool.true_and,
      Nat.zero_lt_succ]
    by_cases h : v < way
    · simp [h, h.ne]
    · simp [h]
      omega
  cases lockdown
  · rw [lockdownValue, if_neg Bool.false_ne_true, BitVec.getLsbD_and, BitVec.getLsbD_not, hbit]
    by_cases h : v = way <;> simp [h, hv]
  · rw [lockdownValue, if_pos rfl, BitVec.getLsbD_or, hbit]
    by_cases h : v = way <;> simp [h]

/-- What `pl310_LockCacheWay` makes of the registers of one kind. -/
def lockCacheWay {C : Type} (config : LockdownConfig C) (registers : Nat → BitVec 32) (way : Nat)
    (lockdown : Bool) : Nat → BitVec 32 :=
  config.offsets.foldl (fun registers offset =>
    Function.update registers offset (lockdownValue (registers offset) way lockdown)) registers

/-- The loop of `setEnabled`. -/
def setEnabled {C : Type} (config : LockdownConfig C) (registers : Nat → BitVec 32) :
    Nat → BitVec 32 :=
  (List.range PL310_CACHE_WAYS).foldl (fun registers way => lockCacheWay config registers way true)
    registers

theorem getLsbD_foldl_lockdownValue (offsets : List Nat) (registers : Nat → BitVec 32) {way v : Nat}
    {lockdown : Bool} (hv : v < 32) (offset : Nat) :
    (offsets.foldl (fun registers offset => Function.update registers offset
      (lockdownValue (registers offset) way lockdown)) registers offset).getLsbD v =
      if v = way ∧ offset ∈ offsets then lockdown else (registers offset).getLsbD v := by
  induction offsets generalizing registers with
  | nil => simp
  | cons o offsets ih =>
    rw [List.foldl_cons, ih, Function.update_apply]
    rcases eq_or_ne offset o with rfl | hne
    · rw [if_pos rfl, getLsbD_lockdownValue hv]
      by_cases h : v = way <;> simp [h]
    · rw [if_neg hne]
      simp [hne]

/-- After `setEnabled` all ways are locked for all CPUs. -/
theorem getLsbD_setEnabled {C : Type} (config : LockdownConfig C) (registers : Nat → BitVec 32)
    (cpu : C) {way : Nat} (hway : way < PL310_CACHE_WAYS) :
    (setEnabled config registers (config.register cpu)).getLsbD way = true := by
  suffices hall : ∀ n ≤ PL310_CACHE_WAYS, ∀ way < n, (((List.range n).foldl (fun registers way =>
      lockCacheWay config registers way true) registers) (config.register cpu)).getLsbD way = true from
    hall _ le_rfl way hway
  intro n hn way hway
  induction n with
  | zero => exact absurd hway (Nat.not_lt_zero way)
  | succ n ih =>
    have hlt : way < 32 := by simp only [PL310_CACHE_WAYS] at hn; omega
    rw [List.range_succ, List.foldl_append, List.foldl_cons, List.foldl_nil, lockCacheWay,
      getLsbD_foldl_lockdownValue _ _ hlt]
    by_cases h : way = n
    · simp [h, config.register_mem cpu]
    · rw [if_neg fun hand => h hand.1]
      exact ih (by omega) (by omega)

/-! ## The steps of the CPUs -/

/-- The arguments of `prefetchDataToWay`. -/
structure Call where
  start : Nat
  end_ : Nat
  textEnd : Nat
  way : Nat

/-- Where a CPU is in `prefetchDataToWay`. In the loops of `pl310_LockCacheWay` are the registers that
are to come and, in a round, the one it is at and the values that have been read. -/
inductive Stage
  | lock
  | readD (lockdown : Bool) (offsets : List Nat)
  | readI (lockdown : Bool) (offset : Nat) (offsets : List Nat) (lockdownRegisterD : BitVec 32)
  | writeD (lockdown : Bool) (offset : Nat) (offsets : List Nat)
    (lockdownRegisterD lockdownRegisterI : BitVec 32)
  | writeI (lockdown : Bool) (offset : Nat) (offsets : List Nat) (lockdownRegisterI : BitVec 32)
  | prefetch (touched : List (Nat × PrefetchKind))

/-- The cache management, the lockdown registers, the lock, the calls of the port that are under way,
and the lines in the ways. -/
structure State (C O : Type) where
  shared : SharedState C O
  lockdownD : Nat → BitVec 32
  lockdownI : Nat → BitVec 32
  pPL310Lock : Option C
  port : C → Option (Call × Stage)
  contents : Nat → Nat → Option Nat

inductive Label (C O : Type)
  | shared (l : SharedLabel C O)
  | lock (cpu : C)
  | lockCacheWay (cpu : C)
  | prefetch (cpu : C) (line : Nat)
  | unlock (cpu : C)
  | access (cpu : C) (line : Nat) (kind : PrefetchKind)

section
variable {C : Type} [DecidableEq C] [DecidableEq O]

/-- The register for the accesses of a CPU. -/
def State.register (config : LockdownConfig C) (m : State C O) (cpu : C) :
    PrefetchKind → BitVec 32
  | .data => m.lockdownD (config.register cpu)
  | .instruction => m.lockdownI (config.register cpu)

/-- An access of the CPU that misses may come into the way. -/
def State.Opened (config : LockdownConfig C) (m : State C O) (cpu : C) (kind : PrefetchKind)
    (way : Nat) : Prop :=
  way < PL310_CACHE_WAYS ∧ (m.register config cpu kind).getLsbD way = false

/-- What the prefetch of a line is to the cache. -/
def LockdownConfig.prefetchKind (config : LockdownConfig C) (kind : PrefetchKind) : PrefetchKind :=
  if config.pldwForInstruction then .data else kind

def State.goto (m : State C O) (cpu : C) (call : Call) (stage : Stage) : State C O :=
  { m with port := Function.update m.port cpu (some (call, stage)) }

omit [DecidableEq O] in
theorem State.goto_port_eq_some {m : State C O} {cpu other : C} {call call' : Call}
    {stage stage' : Stage} : (m.goto cpu call stage).port other = some (call', stage') ↔
      other = cpu ∧ call = call' ∧ stage = stage' ∨
        other ≠ cpu ∧ m.port other = some (call', stage') := by
  simp only [State.goto, Function.update_apply]
  split
  · next hcpu => simp [hcpu]
  · next hcpu => simp [hcpu]

/-- One step. A CPU that is in the port makes no other step of the cache management. -/
inductive Step (config : LockdownConfig C) (layout : MemoryLayout O) :
    State C O → Label C O → State C O → Prop
  | shared {m l s} : SharedStep layout m.shared l s → m.port l.caller = none →
    m.shared.operation layout l = none → Step config layout m (.shared l) { m with shared := s }
  | evictCacheWay {m l s way} : SharedStep layout m.shared l s → m.port l.caller = none →
    m.shared.operation layout l = some (way, .evictCacheWay) → m.pPL310Lock = none →
    Step config layout m (.shared l)
      { m with shared := s, contents := invalidate m.contents way }
  | prefetchDataToWay {m l s way start end_ textEnd} : SharedStep layout m.shared l s →
    m.port l.caller = none →
    m.shared.operation layout l = some (way, .prefetchDataToWay start end_ textEnd) →
    Step config layout m (.shared l)
      ({ m with shared := s }.goto l.caller ⟨start, end_, textEnd, way⟩ .lock)
  | lock {m cpu call} : m.port cpu = some (call, .lock) → m.pPL310Lock = none →
    Step config layout m (.lock cpu)
      ({ m with pPL310Lock := some cpu }.goto cpu call (.readD false config.offsets))
  | readD {m cpu call lockdown offset offsets} :
    m.port cpu = some (call, .readD lockdown (offset :: offsets)) →
    Step config layout m (.lockCacheWay cpu)
      (m.goto cpu call (.readI lockdown offset offsets (m.lockdownD offset)))
  | readI {m cpu call lockdown offset offsets lockdownRegisterD} :
    m.port cpu = some (call, .readI lockdown offset offsets lockdownRegisterD) →
    Step config layout m (.lockCacheWay cpu) (m.goto cpu call
      (.writeD lockdown offset offsets lockdownRegisterD (m.lockdownI offset)))
  | writeD {m cpu call lockdown offset offsets lockdownRegisterD lockdownRegisterI} :
    m.port cpu = some (call,
      .writeD lockdown offset offsets lockdownRegisterD lockdownRegisterI) →
    Step config layout m (.lockCacheWay cpu)
      ({ m with
          lockdownD := Function.update m.lockdownD offset
            (lockdownValue lockdownRegisterD call.way lockdown) }.goto cpu call
        (.writeI lockdown offset offsets lockdownRegisterI))
  | writeI {m cpu call lockdown offset offsets lockdownRegisterI} :
    m.port cpu = some (call, .writeI lockdown offset offsets lockdownRegisterI) →
    Step config layout m (.lockCacheWay cpu)
      ({ m with
          lockdownI := Function.update m.lockdownI offset
            (lockdownValue lockdownRegisterI call.way lockdown) }.goto cpu call
        (.readD lockdown offsets))
  | unlocked {m cpu call touched} : m.port cpu = some (call, .readD false []) →
    PL310CacheManagement.prefetchDataToWay call.start call.end_ call.textEnd = .ok touched →
    Step config layout m (.lockCacheWay cpu) (m.goto cpu call (.prefetch touched))
  | prefetch {m cpu call line kind touched contents} :
    m.port cpu = some (call, .prefetch ((line, kind) :: touched)) →
    Access (lineIndex layout) (m.Opened config cpu (config.prefetchKind kind)) m.contents line
      contents →
    Step config layout m (.prefetch cpu line)
      ({ m with contents := contents }.goto cpu call (.prefetch touched))
  | prefetched {m cpu call} : m.port cpu = some (call, .prefetch []) →
    Step config layout m (.lockCacheWay cpu)
      (m.goto cpu call (.readD true config.offsets))
  | unlock {m cpu call} : m.port cpu = some (call, .readD true []) →
    Step config layout m (.unlock cpu)
      { m with pPL310Lock := none, port := Function.update m.port cpu none }
  | access {m cpu line kind contents} :
    Access (lineIndex layout) (m.Opened config cpu kind) m.contents line contents →
    Step config layout m (.access cpu line kind) { m with contents := contents }

end

end PL310CacheManagement
end CyPhOS
