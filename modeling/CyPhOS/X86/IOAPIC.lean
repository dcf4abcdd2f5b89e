import CyPhOS.Lib.FieldArray
import CyPhOS.X86.ACPI

/-! # The interrupt controllers for the inputs

An IOAPIC shows its registers through a window: the driver writes the number of a register to the
one word and reads or writes the register in the other. `initialize` resets the redirection entries
below the number that the version register has, which is the index of the last entry.

`lastReset` is what the last entry has to be by itself. The IOAPICs of an MADT are reset if theirs
are and if there are not more of them than instances (`configureNewInstance_iff`).
-/

namespace CyPhOS

/-- `IOAPIC_ARBITRATION_ENTRY_t`, as the two words that it takes. -/
structure RedirectionEntry where
  low : BitVec 32
  high : BitVec 32
  deriving DecidableEq, Repr

namespace RedirectionEntry

variable (entry : RedirectionEntry)

def interruptVector : BitVec 8 := BitField.get 0 8 entry.low

def triggerMode : BitVec 1 := BitField.get 15 1 entry.low

def interruptMask : BitVec 1 := BitField.get 16 1 entry.low

end RedirectionEntry

namespace IOAPIC

def DELIVERY_MODE_FIXED : BitVec 3 := 0

def DESTINATION_PHYSICAL : BitVec 1 := 0x0

def POLARITY_HIGH_ACTIVE : BitVec 1 := 0

def TRIGGER_EDGE_SENSITIVE : BitVec 1 := 0x0

def MASKED : BitVec 1 := 0x1

def cREG_ID : Nat := 0x00

def cREG_VERSION : Nat := 0x01

def cREG_REDIRECTION_TABLE_START : Nat := 0x10

/-! ## The registers -/

/-- The selected register and all registers. An offset is at most 0x10 + 2 * 255 + 1 and needs no
more than its 16 bits. -/
structure Device where
  sel : Nat
  registers : Nat → BitVec 32

namespace Device

variable (d : Device)

def readIOAPICRegister (offset : Nat) : BitVec 32 × Device :=
  let d := { d with sel := offset }
  (d.registers d.sel, d)

def writeIOAPICRegister (offset : Nat) (value : BitVec 32) : Device :=
  let d := { d with sel := offset }
  { d with registers := Function.update d.registers d.sel value }

/-- Reads the version register. -/
def getMaximumRedirectionEntryCount : Nat × Device :=
  let (versionReg, d) := d.readIOAPICRegister cREG_VERSION
  ((BitField.get 16 8 versionReg).toNat, d)

def getRedirectionEntry (index : Nat) : RedirectionEntry × Device :=
  let (low, d) := d.readIOAPICRegister (cREG_REDIRECTION_TABLE_START + index * 2)
  let (high, d) := d.readIOAPICRegister (cREG_REDIRECTION_TABLE_START + (index * 2 + 1))
  (⟨low, high⟩, d)

def setRedirectionEntry (index : Nat) (entry : RedirectionEntry) : Device :=
  let d := d.writeIOAPICRegister (cREG_REDIRECTION_TABLE_START + index * 2) entry.low
  d.writeIOAPICRegister (cREG_REDIRECTION_TABLE_START + (index * 2 + 1)) entry.high

def setID (ioapicID : BitVec 4) : Device :=
  let (reg, d) := d.readIOAPICRegister cREG_ID
  d.writeIOAPICRegister cREG_ID (BitField.set 24 ioapicID reg)

end Device

/-- The assignments of the loop of `initialize`. -/
def resetEntry (i : Nat) (entry : RedirectionEntry) : RedirectionEntry :=
  let low := BitField.set 0 (BitVec.ofNat 8 (0x20 + i)) entry.low
  let low := BitField.set 8 DELIVERY_MODE_FIXED low
  let low := BitField.set 11 DESTINATION_PHYSICAL low
  let low := BitField.set 13 POLARITY_HIGH_ACTIVE low
  let low := BitField.set 15 TRIGGER_EDGE_SENSITIVE low
  let low := BitField.set 16 MASKED low
  let high := BitField.set 24 0x0#4 entry.high
  let high := BitField.set 28 0x0#4 high
  ⟨low, high⟩

/-- The body of the loop of `initialize`. -/
def Device.resetRedirectionEntry (d : Device) (i : Nat) : Device :=
  let (entry, d) := d.getRedirectionEntry i
  d.setRedirectionEntry i (resetEntry i entry)

/-- `IOAPIC::initialize` -/
def Device.initializeIOAPIC (d : Device) : Device :=
  let d := d.setID 0
  let (maxEntries, d) := d.getMaximumRedirectionEntryCount
  (List.range maxEntries).foldl Device.resetRedirectionEntry d

/-! ## The instances -/

structure Instance where
  mID : UInt8
  mBaseAddress : Nat
  mGlobalInterruptBase : Nat
  deriving DecidableEq, Repr

/-- `cMAX_INSTANCES` is `nrCpus`. Also the IOAPICs at their base addresses, and the arguments `from`
and `to` of the calls of `setRangeCacheable`. -/
structure State (nrCpus : Nat) where
  mInstances : Nat → Instance
  sRegisteredIOAPICs : Nat
  ioapics : Nat → Device
  uncached : List (Nat × Nat)

variable {nrCpus : Nat}

/-- Before the first call. -/
def State.initial (nrCpus : Nat) (ioapics : Nat → Device) : State nrCpus where
  mInstances _ := ⟨0, 0, 0⟩
  sRegisteredIOAPICs := 0
  ioapics := ioapics
  uncached := []

/-- The body of `configureNewInstance`. -/
def State.configure (s : State nrCpus) (e : ACPI.IoapicEntry) : State nrCpus where
  mInstances := Function.update s.mInstances s.sRegisteredIOAPICs
    ⟨e.ioAPICID, e.ioAPICAddress, e.globalSystemInterruptBase⟩
  ioapics := Function.update s.ioapics e.ioAPICAddress (s.ioapics e.ioAPICAddress).initializeIOAPIC
  uncached := s.uncached ++ [(e.ioAPICAddress, 0x200000)]
  sRegisteredIOAPICs := s.sRegisteredIOAPICs + 1

/-- `none` if there is no element of `mInstances` left. -/
def State.configureNewInstance (s : State nrCpus) (e : ACPI.IoapicEntry) : Option (State nrCpus) :=
  if s.sRegisteredIOAPICs < nrCpus then some (s.configure e) else none

/-! ## Reset entries -/

namespace Device

variable {d : Device} {i j k : Nat}

/-- The redirection entry in the registers. -/
def entry (d : Device) (i : Nat) : RedirectionEntry :=
  ⟨d.registers (cREG_REDIRECTION_TABLE_START + i * 2),
    d.registers (cREG_REDIRECTION_TABLE_START + (i * 2 + 1))⟩

/-- The index of the last redirection entry. -/
def last (d : Device) : Nat := (BitField.get 16 8 (d.registers cREG_VERSION)).toNat

end Device

/-- Masked, edge-triggered, and with the vector that belongs to the index. -/
structure IsReset (i : Nat) (entry : RedirectionEntry) : Prop where
  mask : entry.interruptMask = MASKED
  trigger : entry.triggerMode = TRIGGER_EDGE_SENSITIVE
  vector : entry.interruptVector.toNat = 0x20 + i

instance {i : Nat} {entry : RedirectionEntry} : Decidable (IsReset i entry) :=
  decidable_of_iff (entry.interruptMask = MASKED ∧ entry.triggerMode = TRIGGER_EDGE_SENSITIVE ∧
    entry.interruptVector.toNat = 0x20 + i) ⟨fun h => ⟨h.1, h.2.1, h.2.2⟩, fun h => ⟨h.1, h.2, h.3⟩⟩

theorem isReset_resetEntry {i : Nat} {entry : RedirectionEntry} (hi : 0x20 + i < 2 ^ 8) :
    IsReset i (resetEntry i entry) := by
  refine ⟨?_, ?_, ?_⟩
  · rw [RedirectionEntry.interruptMask, resetEntry, BitField.get_set (by decide)]
  · rw [RedirectionEntry.triggerMode, resetEntry,
      BitField.get_set_of_disjoint (by decide) (.inl (by decide)), BitField.get_set (by decide)]
  · rw [RedirectionEntry.interruptVector, resetEntry,
      BitField.get_set_of_disjoint (by decide) (.inl (by decide)),
      BitField.get_set_of_disjoint (by decide) (.inl (by decide)),
      BitField.get_set_of_disjoint (by decide) (.inl (by decide)),
      BitField.get_set_of_disjoint (by decide) (.inl (by decide)),
      BitField.get_set_of_disjoint (by decide) (.inl (by decide)), BitField.get_set (by decide),
      BitVec.toNat_ofNat, Nat.mod_eq_of_lt hi]

namespace Device

variable {d : Device} {i j k : Nat}

theorem entry_resetRedirectionEntry : (d.resetRedirectionEntry i).entry =
    Function.update d.entry i (resetEntry i (d.entry i)) := by
  funext j
  rcases eq_or_ne j i with rfl | hne
  · simp [resetRedirectionEntry, getRedirectionEntry, setRedirectionEntry, readIOAPICRegister,
      writeIOAPICRegister, entry]
  · have hne' : j * 2 ≠ i * 2 := by omega
    have hodd : j * 2 ≠ i * 2 + 1 := by omega
    have heven : j * 2 + 1 ≠ i * 2 := by omega
    simp [resetRedirectionEntry, getRedirectionEntry, setRedirectionEntry, readIOAPICRegister,
      writeIOAPICRegister, entry, hne, hne', hodd, heven]

theorem registers_resetRedirectionEntry (hk : k < cREG_REDIRECTION_TABLE_START) :
    (d.resetRedirectionEntry i).registers k = d.registers k := by
  have hlow : k ≠ cREG_REDIRECTION_TABLE_START + i * 2 := by omega
  have hhigh : k ≠ cREG_REDIRECTION_TABLE_START + (i * 2 + 1) := by omega
  simp [resetRedirectionEntry, getRedirectionEntry, setRedirectionEntry, readIOAPICRegister,
    writeIOAPICRegister, hlow, hhigh]

theorem registers_setID {ioapicID : BitVec 4} (hk : k ≠ cREG_ID) :
    (d.setID ioapicID).registers k = d.registers k :=
  Function.update_of_ne hk ..

theorem entry_setID {ioapicID : BitVec 4} : (d.setID ioapicID).entry = d.entry := by
  funext j
  have hstart : cREG_ID < cREG_REDIRECTION_TABLE_START := by decide
  rw [entry, registers_setID (by omega), registers_setID (by omega), entry]

/-- The device when the loop starts. -/
theorem initializeIOAPIC_eq : d.initializeIOAPIC =
    (List.range d.last).foldl resetRedirectionEntry { d.setID 0 with sel := cREG_VERSION } := by
  have hlast : (d.setID 0).last = d.last := by
    rw [last, registers_setID (by decide), last]
  rw [← hlast]
  rfl

/-- The entries before the last one are reset. -/
theorem entry_initializeIOAPIC :
    d.initializeIOAPIC.entry j = if j < d.last then resetEntry j (d.entry j) else d.entry j := by
  have hstart : Device.entry { d.setID 0 with sel := cREG_VERSION } = d.entry := entry_setID
  rw [initializeIOAPIC_eq, FieldArray.foldl_update (fun _ _ => entry_resetRedirectionEntry)
    List.nodup_range, hstart]
  exact if_congr List.mem_range rfl rfl

theorem last_initializeIOAPIC : d.initializeIOAPIC.last = d.last := by
  have hloop : ((List.range d.last).foldl resetRedirectionEntry
      { d.setID 0 with sel := cREG_VERSION }).registers cREG_VERSION =
        (d.setID 0).registers cREG_VERSION :=
    FieldArray.foldl_frame (fun d : Device => d.registers cREG_VERSION)
      fun _ _ _ => registers_resetRedirectionEntry (by decide)
  have hstart : (d.setID 0).registers cREG_VERSION = d.registers cREG_VERSION :=
    registers_setID (by decide)
  rw [last, initializeIOAPIC_eq, hloop, hstart, last]

/-- The last entry is as it should be after initialisation. -/
def lastReset (d : Device) : Prop := IsReset d.last (d.entry d.last)

instance {d : Device} : Decidable d.lastReset := inferInstanceAs (Decidable (IsReset _ _))

/-- All entries are as they should be after initialisation. -/
def allReset (d : Device) : Prop := ∀ i ≤ d.last, IsReset i (d.entry i)

theorem lastReset_initializeIOAPIC : d.initializeIOAPIC.lastReset ↔ d.lastReset := by
  rw [lastReset, last_initializeIOAPIC, entry_initializeIOAPIC, if_neg (Nat.lt_irrefl _), lastReset]

theorem allReset_initializeIOAPIC : d.initializeIOAPIC.allReset ↔ d.lastReset := by
  constructor
  · intro h
    rw [← lastReset_initializeIOAPIC]
    exact h _ (Nat.le_refl _)
  · intro h i hi
    rw [last_initializeIOAPIC] at hi
    rw [entry_initializeIOAPIC]
    split
    · next hlt =>
      have hvector := h.vector
      have hbyte := (d.entry d.last).interruptVector.isLt
      exact isReset_resetEntry (by omega)
    · next hge =>
      have heq : i = d.last := by omega
      rw [heq]
      exact h

end Device

/-! ## All IOAPICs of an MADT -/

variable {s : State nrCpus} {es : List ACPI.IoapicEntry} {a : Nat}

theorem foldlM_configureNewInstance (h : s.sRegisteredIOAPICs ≤ nrCpus) :
    es.foldlM State.configureNewInstance s =
      if s.sRegisteredIOAPICs + es.length ≤ nrCpus then some (es.foldl State.configure s)
      else none := by
  induction es generalizing s with
  | nil => simp [h]
  | cons e es ih =>
    rw [List.foldlM_cons, State.configureNewInstance]
    by_cases hlt : s.sRegisteredIOAPICs < nrCpus
    · have hcount : (s.configure e).sRegisteredIOAPICs = s.sRegisteredIOAPICs + 1 := rfl
      rw [if_pos hlt, Option.bind_eq_bind, Option.bind_some, ih (by rw [hcount]; exact hlt), hcount,
        List.length_cons, List.foldl_cons, Nat.add_right_comm, Nat.add_assoc]
    · rw [if_neg hlt, if_neg (by rw [List.length_cons]; omega)]
      rfl

/-- Whether a last entry is reset does not depend on the calls. -/
theorem lastReset_foldl : ((es.foldl State.configure s).ioapics a).lastReset ↔
    (s.ioapics a).lastReset := by
  induction es generalizing s with
  | nil => rfl
  | cons e es ih =>
    rw [List.foldl_cons, ih, State.configure]
    rcases eq_or_ne a e.ioAPICAddress with rfl | hne
    · dsimp only
      rw [Function.update_self, Device.lastReset_initializeIOAPIC]
    · dsimp only
      rw [Function.update_of_ne hne]

/-- An IOAPIC may have several entries. -/
theorem allReset_foldl (ha : ∃ e ∈ es, e.ioAPICAddress = a) :
    ((es.foldl State.configure s).ioapics a).allReset ↔ (s.ioapics a).lastReset := by
  induction es using List.reverseRecOn with
  | nil => simp at ha
  | append_singleton es e ih =>
    rw [List.foldl_append, List.foldl_cons, List.foldl_nil, State.configure]
    dsimp only
    rcases eq_or_ne a e.ioAPICAddress with rfl | hne
    · rw [Function.update_self, Device.allReset_initializeIOAPIC, lastReset_foldl]
    · rw [Function.update_of_ne hne]
      apply ih
      obtain ⟨e', he', rfl⟩ := ha
      rcases List.mem_append.mp he' with he' | he'
      · exact ⟨e', he', rfl⟩
      · exact absurd (congrArg _ (List.mem_singleton.mp he')) hne

theorem foldlM_configureNewInstance_iff {ioapics : Nat → Device} :
    (∃ s, es.foldlM State.configureNewInstance (State.initial nrCpus ioapics) = some s ∧
        ∀ e ∈ es, (s.ioapics e.ioAPICAddress).allReset) ↔
      es.length ≤ nrCpus ∧ ∀ e ∈ es, (ioapics e.ioAPICAddress).lastReset := by
  have hfold := @foldlM_configureNewInstance nrCpus (.initial nrCpus ioapics) es (Nat.zero_le _)
  have hcount : (State.initial nrCpus ioapics).sRegisteredIOAPICs + es.length = es.length :=
    Nat.zero_add _
  have hall : ∀ e ∈ es, (((es.foldl State.configure (.initial nrCpus ioapics)).ioapics
      e.ioAPICAddress).allReset ↔ (ioapics e.ioAPICAddress).lastReset) :=
    fun e he => allReset_foldl ⟨e, he, rfl⟩
  rw [hcount] at hfold
  rw [hfold]
  constructor
  · rintro ⟨s, hs, hreset⟩
    obtain ⟨hroom, heq⟩ := Option.ite_none_right_eq_some.mp hs
    obtain rfl := Option.some.inj heq
    exact ⟨hroom, fun e he => (hall e he).mp (hreset e he)⟩
  · rintro ⟨hroom, hlast⟩
    exact ⟨_, if_pos hroom, fun e he => (hall e he).mpr (hlast e he)⟩

/-- The IOAPICs of an MADT are registered. -/
def initIOAPICs (nrCpus : Nat) (mem : Memory) (mMADT fuel : Nat) (ioapics : Nat → Device) :
    Exec (Option (State nrCpus)) := do
  let P ← ACPI.initMADT mem mMADT fuel (.new nrCpus)
  pure (P.ioapics.foldlM State.configureNewInstance (.initial nrCpus ioapics))

/-- All redirection entries of the IOAPICs of an MADT are reset, and `mInstances` has room for
these, if the last ones are reset already and there are not more IOAPICs than elements. -/
theorem initIOAPICs_iff {nrCpus : Nat} {mem : Memory} {mMADT fuel : Nat}
    {P : ACPI.Platform nrCpus} (hwalk : ACPI.initMADT mem mMADT fuel (.new nrCpus) = .ok P)
    (ioapics : Nat → Device) :
    (∃ s, initIOAPICs nrCpus mem mMADT fuel ioapics = .ok (some s) ∧
        ∀ e ∈ P.ioapics, (s.ioapics e.ioAPICAddress).allReset) ↔
      P.ioapics.length ≤ nrCpus ∧ ∀ e ∈ P.ioapics, (ioapics e.ioAPICAddress).lastReset := by
  rw [initIOAPICs, hwalk, Exec.ok_bind, ← foldlM_configureNewInstance_iff]
  simp only [Exec.pure_eq, Except.ok.injEq]

/-! ## Two machines -/

/-- An MADT at 0x1000 of one IOAPIC, at 0xFEC00000. -/
def oneIOAPIC : Memory := fun a =>
  (([0x41, 0x50, 0x49, 0x43, 56] : List UInt8) ++ List.replicate 39 0 ++
    [1, 12, 2, 0, 0, 0, 0xC0, 0xFE, 0, 0, 0, 0]).getD (a - 0x1000) 0

/-- An IOAPIC of 24 entries, of which the last one has this lower half. -/
def ioapic24 (low : BitVec 32) : Device where
  sel := 0
  registers k := if k = cREG_VERSION then 0x00170011 else if k = 0x10 + 23 * 2 then low else 0

theorem tiles_oneIOAPIC : ACPI.Tiles oneIOAPIC (0x1000 + 44)
    (0x1000 + ACPI.madtLength oneIOAPIC 0x1000) [0x102c] :=
  .cons (by decide) .nil

theorem initMADT_oneIOAPIC : ACPI.initMADT oneIOAPIC 0x1000 1 (.new 4) =
    .ok { ACPI.Platform.new 4 with ioapics := [⟨2, 0xFEC00000, 0⟩] } := by
  have hentry : ACPI.registerEntry oneIOAPIC (.new 4) 0x102c =
      { ACPI.Platform.new 4 with ioapics := [⟨2, 0xFEC00000, 0⟩] } := by
    have htype : ACPI.entryType oneIOAPIC 0x102c = ACPI.madtEntryIoapic := by decide
    have hioapic : ACPI.ioapicEntry oneIOAPIC 0x102c = ⟨2, 0xFEC00000, 0⟩ := by decide
    rw [ACPI.registerEntry, if_pos htype, hioapic]
    rfl
  rw [ACPI.initMADT_eq tiles_oneIOAPIC (by decide) (by decide), List.foldl_cons, List.foldl_nil,
    hentry]

/-- The last entry is masked already, with vector 0x37. -/
theorem initIOAPICs_iff_masked :
    ∃ s, initIOAPICs 4 oneIOAPIC 0x1000 1 (fun _ => ioapic24 0x10037) = .ok (some s) ∧
      ∀ e ∈ [(⟨2, 0xFEC00000, 0⟩ : ACPI.IoapicEntry)], (s.ioapics e.ioAPICAddress).allReset :=
  (initIOAPICs_iff initMADT_oneIOAPIC fun _ => ioapic24 0x10037).mpr (by decide)

/-- The last entry stays unmasked. -/
theorem initIOAPICs_unmasked : ¬ ∀ nrCpus mem mMADT fuel (P : ACPI.Platform nrCpus) ioapics,
    ACPI.initMADT mem mMADT fuel (.new nrCpus) = .ok P →
      ∃ s, initIOAPICs nrCpus mem mMADT fuel ioapics = .ok (some s) ∧
        ∀ e ∈ P.ioapics, (s.ioapics e.ioAPICAddress).allReset := by
  intro h
  obtain ⟨s, hs, hreset⟩ := h 4 oneIOAPIC 0x1000 1 _ (fun _ => ioapic24 0) initMADT_oneIOAPIC
  rw [initIOAPICs, initMADT_oneIOAPIC, Exec.ok_bind, Exec.pure_eq, Except.ok.injEq] at hs
  have hlast := (foldlM_configureNewInstance_iff.mp ⟨s, hs, hreset⟩).2 _ (List.mem_singleton_self _)
  revert hlast
  decide

end IOAPIC

end CyPhOS
