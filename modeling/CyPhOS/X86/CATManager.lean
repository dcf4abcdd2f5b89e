import CyPhOS.Common.BitManipulation
import Mathlib.Data.List.Nodup
import Mathlib.Logic.Function.Basic

/-! # The way mapping of the cache allocation technology

The processor reports how many bits a capacity mask has and which of them it shares with other
units. `createWayMapping` gives the first of the remaining bits to the CPUs, as stand-by masks, and
maps the others to cache ways. `exclusiveBits` is the list of these bits; the mapping is valid if
there is one for every CPU and the rest fits the table (`createWayMapping_valid_iff`).
-/

namespace CyPhOS

/-- What `CPUID` leaves in the registers. -/
structure CpuidRegisters where
  eax : BitVec 32
  ebx : BitVec 32
  ecx : BitVec 32
  edx : BitVec 32
  deriving DecidableEq, Repr

/-- `NR_CPUS` is `nrCpus`. The arrays are functions; the functions of the class return `none` if
they access an array outside its bounds. -/
structure CATManager (nrCpus : Nat) where
  mAvailableResources : BitVec 32
  mCOSMax : BitVec 16
  mBitmaskMaxLength : Nat
  mSharedBitMask : BitVec 32
  mCodeDataPriorizationAvailable : Bool
  mNoCATAvailable : Bool
  mCacheWayCount : Nat
  mWayBitMapping : Nat → Nat
  mStandbyMask : Nat → BitVec 32

namespace CATManager

def cCPUID_REG_EAX_AVAILABLE_RESOURCE_IDENTIFICATION : BitVec 32 := 0x10

def cCPUID_REG_ECX_AVAILABLE_RESOURCE_IDENTIFICATION : BitVec 32 := 0x00

def cMSR_L3_COS_BASE : Nat := 0xC90

def cMSR_L2_COS_BASE : Nat := 0xD10

/-- The size of `mWayBitMapping`. -/
def cCOSMaxStatic : Nat := 20

/-- The static instance, in zeroed memory. -/
def sInstance (nrCpus : Nat) : CATManager nrCpus where
  mAvailableResources := 0
  mCOSMax := 0
  mBitmaskMaxLength := 0
  mSharedBitMask := 0
  mCodeDataPriorizationAvailable := false
  mNoCATAvailable := false
  mCacheWayCount := 0
  mWayBitMapping _ := 0
  mStandbyMask _ := 0

variable {nrCpus : Nat} (m : CATManager nrCpus)

def getL3CATAvailable : Bool := m.mAvailableResources &&& 0x2 ≠ 0

def getL2CATAvailable : Bool := m.mAvailableResources &&& 0x4 ≠ 0

/-- The end of `enumerateCapabilities`. -/
def setCapabilities (regs : CpuidRegisters) : CATManager nrCpus :=
  { m with
    mCOSMax := (0xFFFF#32 &&& regs.edx).setWidth 16 + 1
    mSharedBitMask := regs.ebx
    mBitmaskMaxLength := (0x1F#32 &&& regs.eax).toNat + 1
    mCodeDataPriorizationAvailable := 0x4#32 &&& regs.ecx ≠ 0 }

/-- `readCPUID` is a function of `eax` and `ecx`. -/
def enumerateCapabilities (readCPUID : BitVec 32 → BitVec 32 → CpuidRegisters) :
    CATManager nrCpus :=
  let regs := readCPUID cCPUID_REG_EAX_AVAILABLE_RESOURCE_IDENTIFICATION
    cCPUID_REG_ECX_AVAILABLE_RESOURCE_IDENTIFICATION
  let m : CATManager nrCpus := { m with mAvailableResources := regs.ebx }
  if m.getL3CATAvailable then m.setCapabilities (readCPUID 0x10 0x1)
  else if m.getL2CATAvailable then m.setCapabilities (readCPUID 0x10 0x2)
  else { m with mNoCATAvailable := true }

/-! ## The mapping -/

/-- The body of the `if` of the loop. The local variable `cpu` is the first component. -/
def assignBit : Nat × CATManager nrCpus → Nat → Option (Nat × CATManager nrCpus)
  | (cpu, m), i =>
    if cpu ≠ nrCpus then
      if cpu < nrCpus then
        some (cpu + 1, { m with mStandbyMask := Function.update m.mStandbyMask cpu (0x1#32 <<< i) })
      else none
    else if m.mCacheWayCount < cCOSMaxStatic then
      some (cpu, { m with
        mWayBitMapping := Function.update m.mWayBitMapping m.mCacheWayCount i
        mCacheWayCount := m.mCacheWayCount + 1 })
    else none

def createWayMapping : Option (CATManager nrCpus) :=
  let m := { m with mCacheWayCount := 0 }
  ((List.range m.mBitmaskMaxLength).foldlM
    (fun s i => if m.mSharedBitMask &&& (0x1#32 <<< i) = 0 then assignBit s i else some s)
    (0, m)).map (·.2)

/-! ## Masks -/

def getProcessorCOS (cpu : Nat) : Nat := cpu + 1

/-- The write to a register of the processor, if there is one. -/
def setMask (cos : Nat) (mask : BitVec 32) : Option (Nat × BitVec 64) :=
  if m.mNoCATAvailable then none
  else if m.getL3CATAvailable then some (cMSR_L3_COS_BASE + cos, mask.setWidth 64)
  else if m.getL2CATAvailable then some (cMSR_L2_COS_BASE + cos, mask.setWidth 64)
  else none

/-- `cpu` is the calling processor. -/
def enableWayExclusive (cpu way : Nat) : Option (Nat × BitVec 64) :=
  m.setMask (getProcessorCOS cpu) (0x1#32 <<< m.mWayBitMapping way)

def disableAllWays (cpu : Nat) : Option (Nat × BitVec 64) :=
  m.setMask (getProcessorCOS cpu) (m.mStandbyMask cpu)

/-! ## Valid mappings -/

/-- Every CPU has a stand-by bit and every way has a bit of its own, none of them shared, and no
mask that is programmed is 0. -/
structure Valid : Prop where
  standby : ∀ cpu < nrCpus, ∃ i < m.mBitmaskMaxLength, m.mStandbyMask cpu = 0x1#32 <<< i
  standby_injective : ∀ cpu < nrCpus, ∀ cpu' < nrCpus,
    m.mStandbyMask cpu = m.mStandbyMask cpu' → cpu = cpu'
  standby_exclusive : ∀ cpu < nrCpus, m.mSharedBitMask &&& m.mStandbyMask cpu = 0
  fits : m.mCacheWayCount ≤ cCOSMaxStatic
  way : ∀ way < m.mCacheWayCount, m.mWayBitMapping way < m.mBitmaskMaxLength
  way_injective : ∀ way < m.mCacheWayCount, ∀ way' < m.mCacheWayCount,
    m.mWayBitMapping way = m.mWayBitMapping way' → way = way'
  way_exclusive : ∀ way < m.mCacheWayCount,
    m.mSharedBitMask &&& (0x1#32 <<< m.mWayBitMapping way) = 0
  way_standby : ∀ way < m.mCacheWayCount, ∀ cpu < nrCpus,
    m.mStandbyMask cpu ≠ 0x1#32 <<< m.mWayBitMapping way
  enabled : ∀ way < m.mCacheWayCount, ∀ cpu < nrCpus,
    ∃ msr mask, m.enableWayExclusive cpu way = some (msr, mask) ∧ mask ≠ 0
  disabled : ∀ cpu < nrCpus, ∃ msr mask, m.disableAllWays cpu = some (msr, mask) ∧ mask ≠ 0

variable {m} {bits : List Nat} {b i : Nat}

/-- The bits that the processor does not share, from the lowest on. -/
def exclusiveBits (m : CATManager nrCpus) : List Nat :=
  (List.range m.mBitmaskMaxLength).filter fun i => m.mSharedBitMask &&& (0x1#32 <<< i) = 0

/-- The CPUs have the first of the bits and the ways the others. -/
def distribute (m : CATManager nrCpus) (bits : List Nat) : CATManager nrCpus :=
  { m with
    mStandbyMask := fun cpu => (bits.take nrCpus)[cpu]?.elim (m.mStandbyMask cpu) (0x1#32 <<< ·)
    mWayBitMapping := fun way => (bits.drop nrCpus)[way]?.getD (m.mWayBitMapping way)
    mCacheWayCount := (bits.drop nrCpus).length }

theorem getElem?_concat_of_ne (h : i ≠ bits.length) : (bits ++ [b])[i]? = bits[i]? := by
  rcases Nat.lt_or_gt_of_ne h with hlt | hgt
  · exact List.getElem?_append_left hlt
  · rw [List.getElem?_eq_none (by simp; omega), List.getElem?_eq_none hgt.le]

/-- While CPUs are left, the next one gets the bit. -/
theorem assignBit_cpu (hlt : bits.length < nrCpus) :
    assignBit (bits.length, m.distribute bits) b =
      some (bits.length + 1, m.distribute (bits ++ [b])) := by
  have htake : (bits ++ [b]).take nrCpus = bits ++ [b] := List.take_of_length_le (by simp; omega)
  have hdrop : (bits ++ [b]).drop nrCpus = [] := List.drop_of_length_le (by simp; omega)
  rw [assignBit, if_pos hlt.ne, if_pos hlt]
  simp only [distribute, htake, hdrop, List.take_of_length_le hlt.le,
    List.drop_of_length_le hlt.le]
  congr 3
  funext cpu
  rcases eq_or_ne cpu bits.length with rfl | hne
  · simp
  · rw [Function.update_of_ne hne, getElem?_concat_of_ne hne]

/-- Then the next way gets the bit, if the table has room. -/
theorem assignBit_way (hge : nrCpus ≤ bits.length) :
    assignBit (nrCpus, m.distribute bits) b =
      if bits.length < nrCpus + cCOSMaxStatic then some (nrCpus, m.distribute (bits ++ [b]))
      else none := by
  have hcount : (m.distribute bits).mCacheWayCount < cCOSMaxStatic ↔
      bits.length < nrCpus + cCOSMaxStatic := by
    simp only [distribute, List.length_drop]
    omega
  rw [assignBit, if_neg (fun h => h rfl), if_congr hcount rfl rfl]
  split
  · simp only [distribute, List.take_append_of_le_length hge, List.drop_append_of_le_length hge]
    congr 3
    · simp
    · funext way
      rcases eq_or_ne way (bits.drop nrCpus).length with rfl | hne
      · simp
      · rw [Function.update_of_ne hne, getElem?_concat_of_ne hne]
  · rfl

theorem assignBit_distribute : assignBit (min bits.length nrCpus, m.distribute bits) b =
    if bits.length < nrCpus + cCOSMaxStatic then
      some (min (bits ++ [b]).length nrCpus, m.distribute (bits ++ [b]))
    else none := by
  rcases Nat.lt_or_ge bits.length nrCpus with hlt | hge
  · have hmin : min (bits ++ [b]).length nrCpus = bits.length + 1 := by simp; omega
    rw [Nat.min_eq_left hlt.le, hmin, assignBit_cpu hlt, if_pos (by omega)]
  · have hmin : min (bits ++ [b]).length nrCpus = nrCpus := by simp; omega
    rw [Nat.min_eq_right hge, hmin, assignBit_way hge]

/-- The loop distributes the bits as long as the table has room for them. -/
theorem foldlM_assignBit : bits.foldlM assignBit (0, m.distribute []) =
    if bits.length ≤ nrCpus + cCOSMaxStatic then
      some (min bits.length nrCpus, m.distribute bits)
    else none := by
  induction bits using List.reverseRecOn with
  | nil => simp
  | append_singleton bits b ih =>
    rw [List.foldlM_append, ih]
    by_cases hroom : bits.length ≤ nrCpus + cCOSMaxStatic
    · simp only [if_pos hroom, Option.bind_eq_bind, Option.bind_some, List.foldlM_cons,
        assignBit_distribute]
      by_cases hlt : bits.length < nrCpus + cCOSMaxStatic
      · rw [if_pos hlt, if_pos (by simp; omega)]
        rfl
      · rw [if_neg hlt, if_neg (by simp; omega)]
        rfl
    · rw [if_neg hroom, if_neg (by simp; omega)]
      rfl

theorem createWayMapping_eq : m.createWayMapping =
    if m.exclusiveBits.length ≤ nrCpus + cCOSMaxStatic then
      some (m.distribute m.exclusiveBits)
    else none := by
  have hstart : m.distribute [] = { m with mCacheWayCount := 0 } := by simp [distribute]
  have hloop := @foldlM_assignBit nrCpus m m.exclusiveBits
  rw [exclusiveBits, List.foldlM_filter, hstart] at hloop
  simp only [decide_eq_true_eq] at hloop
  rw [createWayMapping]
  dsimp only
  rw [show (some : _ → Option (Nat × CATManager nrCpus)) = pure from rfl, hloop, exclusiveBits]
  split <;> rfl

/-! ## When the mapping is valid -/

theorem mask_injective {j : Nat} (hi : i < 32) (h : 0x1#32 <<< i = 0x1#32 <<< j) : i = j := by
  by_contra hne
  have hbit := congrArg (fun x => BitVec.getLsbD x i) h
  simp only [BitVec.getLsbD_shiftLeft, BitVec.getLsbD_one] at hbit
  rcases Nat.lt_or_gt_of_ne hne with hlt | hgt
  · simp [hi, hlt] at hbit
  · simp [hi, Nat.sub_ne_zero_of_lt hgt] at hbit

theorem mask_ne_zero (hi : i < 32) : 0x1#32 <<< i ≠ 0 := by
  intro h
  have hbit := congrArg (fun x => BitVec.getLsbD x i) h
  simp [hi] at hbit

theorem mem_exclusiveBits : i ∈ m.exclusiveBits ↔
    i < m.mBitmaskMaxLength ∧ m.mSharedBitMask &&& (0x1#32 <<< i) = 0 := by
  rw [exclusiveBits, List.mem_filter, List.mem_range, decide_eq_true_eq]

theorem nodup_exclusiveBits : m.exclusiveBits.Nodup := List.nodup_range.filter _

/-- There is a cache whose masks can be programmed. -/
def Available (m : CATManager nrCpus) : Prop :=
  m.mNoCATAvailable = false ∧ (m.getL3CATAvailable = true ∨ m.getL2CATAvailable = true)

theorem Available.setMask_ne_zero {cos : Nat} (h : m.Available) (hi : i < 32) :
    ∃ msr mask, m.setMask cos (0x1#32 <<< i) = some (msr, mask) ∧ mask ≠ 0 := by
  have hmask : (0x1#32 <<< i).setWidth 64 ≠ 0 := by
    intro hzero
    apply mask_ne_zero hi
    have hsmall := congrArg (BitVec.setWidth 32) hzero
    rwa [BitVec.setWidth_setWidth_of_le _ (by decide), BitVec.setWidth_eq] at hsmall
  rw [setMask, h.1, if_neg (by decide)]
  split
  · exact ⟨_, _, rfl, hmask⟩
  · next hL3 => rw [if_pos (h.2.resolve_left hL3)]; exact ⟨_, _, rfl, hmask⟩

theorem standby_distribute {cpu : Nat} (hcpu : cpu < nrCpus) (h : nrCpus ≤ bits.length) :
    (m.distribute bits).mStandbyMask cpu = 0x1#32 <<< bits[cpu] := by
  have hget : (bits.take nrCpus)[cpu]? = some bits[cpu] := by
    rw [List.getElem?_take_of_lt hcpu, List.getElem?_eq_getElem]
  simp only [distribute, hget, Option.elim_some]

theorem way_distribute {way : Nat} (hway : nrCpus + way < bits.length) :
    (m.distribute bits).mWayBitMapping way = bits[nrCpus + way] := by
  have hget : (bits.drop nrCpus)[way]? = some bits[nrCpus + way] := by
    rw [List.getElem?_drop, List.getElem?_eq_getElem]
  simp only [distribute, hget, Option.getD_some]

theorem getElem_exclusiveBits {k : Nat} (hk : k < m.exclusiveBits.length) :
    m.exclusiveBits[k] < m.mBitmaskMaxLength ∧
      m.mSharedBitMask &&& (0x1#32 <<< m.exclusiveBits[k]) = 0 :=
  mem_exclusiveBits.mp (List.getElem_mem hk)

/-- Different exclusive bits have different masks. -/
theorem mask_exclusiveBits_injective (hlength : m.mBitmaskMaxLength ≤ 32) {k l : Nat}
    (hk : k < m.exclusiveBits.length) (hl : l < m.exclusiveBits.length)
    (h : 0x1#32 <<< m.exclusiveBits[k] = 0x1#32 <<< m.exclusiveBits[l]) : k = l :=
  nodup_exclusiveBits.getElem_inj_iff.mp
    (mask_injective ((getElem_exclusiveBits hk).1.trans_le hlength) h)

theorem lt_length_of_way {way : Nat} (h : way < (m.distribute bits).mCacheWayCount) :
    nrCpus + way < bits.length := by
  simp only [distribute, List.length_drop] at h
  omega

theorem valid_distribute (havailable : m.Available) (hlength : m.mBitmaskMaxLength ≤ 32)
    (hcpus : nrCpus ≤ m.exclusiveBits.length)
    (hroom : m.exclusiveBits.length ≤ nrCpus + cCOSMaxStatic) :
    (m.distribute m.exclusiveBits).Valid := by
  have havailable' : (m.distribute m.exclusiveBits).Available := havailable
  refine
    { standby := fun cpu hcpu => ?_
      standby_injective := fun cpu hcpu cpu' hcpu' heq => ?_
      standby_exclusive := fun cpu hcpu => ?_
      fits := ?_
      way := fun way h => ?_
      way_injective := fun way h way' h' heq => ?_
      way_exclusive := fun way h => ?_
      way_standby := fun way h cpu hcpu heq => ?_
      enabled := fun way h cpu _ => ?_
      disabled := fun cpu hcpu => ?_ }
  · have hbit := getElem_exclusiveBits (hcpu.trans_le hcpus)
    exact ⟨_, hbit.1, standby_distribute hcpu hcpus⟩
  · rw [standby_distribute hcpu hcpus, standby_distribute hcpu' hcpus] at heq
    exact mask_exclusiveBits_injective hlength _ _ heq
  · rw [standby_distribute hcpu hcpus]
    exact (getElem_exclusiveBits (hcpu.trans_le hcpus)).2
  · simp only [distribute, List.length_drop]
    omega
  · rw [way_distribute (lt_length_of_way h)]
    exact (getElem_exclusiveBits (lt_length_of_way h)).1
  · rw [way_distribute (lt_length_of_way h), way_distribute (lt_length_of_way h')] at heq
    exact Nat.add_left_cancel (nodup_exclusiveBits.getElem_inj_iff.mp heq)
  · rw [way_distribute (lt_length_of_way h)]
    exact (getElem_exclusiveBits (lt_length_of_way h)).2
  · rw [standby_distribute hcpu hcpus, way_distribute (lt_length_of_way h)] at heq
    have hsame := mask_exclusiveBits_injective hlength _ _ heq
    omega
  · rw [enableWayExclusive, way_distribute (lt_length_of_way h)]
    exact havailable'.setMask_ne_zero
      ((getElem_exclusiveBits (lt_length_of_way h)).1.trans_le hlength)
  · rw [disableAllWays, standby_distribute hcpu hcpus]
    exact havailable'.setMask_ne_zero
      ((getElem_exclusiveBits (hcpu.trans_le hcpus)).1.trans_le hlength)

/-- A CPU that has got no bit keeps the mask that it had. -/
theorem Valid.le_length (hzero : ∀ cpu, m.mStandbyMask cpu = 0) (hlength : m.mBitmaskMaxLength ≤ 32)
    (h : (m.distribute bits).Valid) : nrCpus ≤ bits.length := by
  by_contra hlt
  obtain ⟨i, hi, heq⟩ := h.standby bits.length (Nat.lt_of_not_le hlt)
  have hnone : (bits.take nrCpus)[bits.length]? = none :=
    List.getElem?_eq_none (by simp)
  simp only [distribute, hnone, Option.elim_none, hzero] at heq
  exact mask_ne_zero (Nat.lt_of_lt_of_le hi hlength) heq.symm

theorem enumerateCapabilities_length {readCPUID : BitVec 32 → BitVec 32 → CpuidRegisters}
    (hm : m.mBitmaskMaxLength ≤ 32) :
    (m.enumerateCapabilities readCPUID).mBitmaskMaxLength ≤ 32 := by
  have hmask : ∀ eax : BitVec 32, (0x1F#32 &&& eax).toNat + 1 ≤ 32 := by
    intro eax
    rw [BitVec.toNat_and, Nat.succ_le_succ_iff]
    exact Nat.and_le_left
  rw [enumerateCapabilities]
  dsimp only
  split
  · exact hmask _
  · split
    · exact hmask _
    · exact hm

theorem enumerateCapabilities_standby {readCPUID : BitVec 32 → BitVec 32 → CpuidRegisters} :
    (m.enumerateCapabilities readCPUID).mStandbyMask = m.mStandbyMask := by
  rw [enumerateCapabilities]
  dsimp only
  split
  · rfl
  · split <;> rfl

theorem enumerateCapabilities_available {readCPUID : BitVec 32 → BitVec 32 → CpuidRegisters}
    (h : (m.enumerateCapabilities readCPUID).mNoCATAvailable = false) :
    (m.enumerateCapabilities readCPUID).Available := by
  refine ⟨h, ?_⟩
  revert h
  rw [enumerateCapabilities]
  dsimp only
  split
  · next hL3 => exact fun _ => .inl hL3
  · split
    · next hL2 => exact fun _ => .inr hL2
    · exact fun h => absurd h (by simp)

/-- The mapping is valid if the processor has an exclusive bit for each CPU and not more than the
table holds besides. -/
theorem createWayMapping_valid_iff (nrCpus : Nat)
    (readCPUID : BitVec 32 → BitVec 32 → CpuidRegisters)
    (hcat : ((sInstance nrCpus).enumerateCapabilities readCPUID).mNoCATAvailable = false) :
    (∃ m', ((sInstance nrCpus).enumerateCapabilities readCPUID).createWayMapping = some m' ∧
        m'.Valid) ↔
      nrCpus ≤ ((sInstance nrCpus).enumerateCapabilities readCPUID).exclusiveBits.length ∧
        ((sInstance nrCpus).enumerateCapabilities readCPUID).exclusiveBits.length ≤
          nrCpus + cCOSMaxStatic := by
  have hlength : ((sInstance nrCpus).enumerateCapabilities readCPUID).mBitmaskMaxLength ≤ 32 :=
    enumerateCapabilities_length (Nat.zero_le _)
  have hzero : ∀ cpu,
      ((sInstance nrCpus).enumerateCapabilities readCPUID).mStandbyMask cpu = 0 := by
    intro cpu
    rw [enumerateCapabilities_standby]
    rfl
  have havailable := enumerateCapabilities_available hcat
  revert havailable hlength hzero
  generalize (sInstance nrCpus).enumerateCapabilities readCPUID = m
  intro hlength hzero havailable
  rw [createWayMapping_eq]
  constructor
  · rintro ⟨m', hm', hvalid⟩
    split at hm'
    · next hroom =>
      cases hm'
      exact ⟨hvalid.le_length hzero hlength, hroom⟩
    · cases hm'
  · rintro ⟨hcpus, hroom⟩
    exact ⟨_, if_pos hroom, valid_distribute havailable hlength hcpus hroom⟩

/-- A processor whose L3 masks have `n + 1` bits, which it shares where `shared` is set. -/
def cpuidL3 (n shared : BitVec 32) (_eax ecx : BitVec 32) : CpuidRegisters :=
  if ecx = 0 then ⟨0, 0x2, 0, 0⟩ else ⟨n, shared, 0, 0xF⟩

/-- Four CPUs, and twenty bits of which the upper two are shared. -/
theorem createWayMapping_valid_four :
    ∃ m', ((sInstance 4).enumerateCapabilities (cpuidL3 19 0xC0000)).createWayMapping = some m' ∧
      m'.Valid :=
  (createWayMapping_valid_iff 4 (cpuidL3 19 0xC0000) (by decide)).mpr (by decide)

/-- Four CPUs, and masks of 32 bits of which none is shared: the mapping needs 28 places. -/
theorem createWayMapping_overflows : ¬ ∀ nrCpus readCPUID,
    ((sInstance nrCpus).enumerateCapabilities readCPUID).mNoCATAvailable = false →
      ∃ m', ((sInstance nrCpus).enumerateCapabilities readCPUID).createWayMapping = some m' ∧
        m'.Valid := by
  intro h
  obtain ⟨m', hm', -⟩ := h 4 (cpuidL3 31 0) (by decide)
  rw [createWayMapping_eq, if_neg (by decide)] at hm'
  cases hm'

end CATManager

end CyPhOS
