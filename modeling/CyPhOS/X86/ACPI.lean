import Mathlib.Algebra.Group.Nat.Defs
import CyPhOS.Common.Exec
import CyPhOS.X86.SMPManager

/-! # The walk over the MADT

`initACPI` visits the entries of the MADT one after the other, each behind the one before by the
length that its own header gives, and registers the enabled CPUs and the IOAPICs. In a table that
its entries fill (`Tiles`) the walk visits exactly these.
-/

namespace CyPhOS

/-- Physical memory, which the kernel maps one to one. It keeps to addresses below 4 GiB, so that
no address wraps. -/
abbrev Memory := Nat → UInt8

/-- A `uint32_t` at an address. -/
def Memory.read32 (mem : Memory) (a : Nat) : Nat :=
  (mem a).toNat + (mem (a + 1)).toNat * 2 ^ 8 + (mem (a + 2)).toNat * 2 ^ 16 +
    (mem (a + 3)).toNat * 2 ^ 24

namespace ACPI

/-- The `length` of an `MADT`. -/
def madtLength (mem : Memory) (mMADT : Nat) : Nat := mem.read32 (mMADT + 4)

/-! ## Entries -/

/-- The `type` of an `MADT_Entry`. -/
def entryType (mem : Memory) (entry : Nat) : UInt8 := mem entry

/-- The `length` of an `MADT_Entry`. -/
def entryLength (mem : Memory) (entry : Nat) : Nat := (mem (entry + 1)).toNat

def madtEntryLocalApic : UInt8 := 0x0

def madtEntryIoapic : UInt8 := 0x1

/-- `MADT_Entry_Processor_Local_APIC` -/
structure LocalApicEntry where
  acpiProcessorID : UInt8
  apicID : UInt8
  flags : Nat
  deriving DecidableEq, Repr

def localApicEntry (mem : Memory) (entry : Nat) : LocalApicEntry :=
  ⟨mem (entry + 2), mem (entry + 3), mem.read32 (entry + 4)⟩

/-- `MADT_Entry_IOAPIC` -/
structure IoapicEntry where
  ioAPICID : UInt8
  ioAPICAddress : Nat
  globalSystemInterruptBase : Nat
  deriving DecidableEq, Repr

def ioapicEntry (mem : Memory) (entry : Nat) : IoapicEntry :=
  ⟨mem (entry + 2), mem.read32 (entry + 4), mem.read32 (entry + 8)⟩

def getNextEntry (mem : Memory) (mMADT entry : Nat) : Option Nat :=
  if entry = mMADT then some (mMADT + 44)
  else if entry + entryLength mem entry < mMADT + madtLength mem mMADT then
    some (entry + entryLength mem entry)
  else none

/-! ## The walk -/

/-- What the MADT configures: the CPUs, and the IOAPICs in the order of the calls of
`configureNewInstance`. -/
structure Platform (nrCpus : Nat) where
  smp : SMPManager nrCpus
  ioapics : List IoapicEntry

def Platform.new (nrCpus : Nat) : Platform nrCpus := ⟨.new nrCpus, []⟩

variable {nrCpus : Nat}

/-- The body of the loop. -/
def registerEntry (mem : Memory) (P : Platform nrCpus) (entry : Nat) : Platform nrCpus :=
  if entryType mem entry = madtEntryIoapic then
    { P with ioapics := P.ioapics ++ [ioapicEntry mem entry] }
  else if entryType mem entry = madtEntryLocalApic then
    let lAPICEntry := localApicEntry mem entry
    if lAPICEntry.flags % 2 = 1 then
      { P with smp := P.smp.addAPICID lAPICEntry.apicID lAPICEntry.acpiProcessorID true }
    else P
  else P

/-- The loop, which ends if there is no next entry. -/
def registerEntries (mem : Memory) (mMADT : Nat) :
    Nat → Option Nat → Platform nrCpus → Exec (Platform nrCpus)
  | _, none, P => .ok P
  | 0, some _, _ => .error .hang
  | fuel + 1, some entry, P =>
    registerEntries mem mMADT fuel (getNextEntry mem mMADT entry) (registerEntry mem P entry)

/-- The part of `initACPI` that follows if there is an MADT. -/
def initMADT (mem : Memory) (mMADT fuel : Nat) (P : Platform nrCpus) : Exec (Platform nrCpus) :=
  registerEntries mem mMADT fuel (getNextEntry mem mMADT mMADT) P

/-! ## Tables that their entries fill -/

/-- The entries follow one another from `a` up to `stop`. -/
inductive Tiles (mem : Memory) : Nat → Nat → List Nat → Prop
  | nil {stop : Nat} : Tiles mem stop stop []
  | cons {a stop : Nat} {entries : List Nat} : 2 ≤ entryLength mem a →
    Tiles mem (a + entryLength mem a) stop entries → Tiles mem a stop (a :: entries)

variable {mem : Memory} {mMADT a stop fuel : Nat} {entries : List Nat} {P : Platform nrCpus}

theorem Tiles.le (h : Tiles mem a stop entries) : a ≤ stop := by
  induction h with
  | nil => exact Nat.le_refl _
  | cons _ _ ih => omega

/-- Either the table is at its end, or the next entry is here. -/
theorem Tiles.head? (h : Tiles mem a stop entries) :
    entries.head? = none ∧ a = stop ∨ entries.head? = some a ∧ a < stop := by
  cases h with
  | nil => exact .inl ⟨rfl, rfl⟩
  | cons hlength hrest => exact .inr ⟨rfl, by have := hrest.le; omega⟩

/-- The next entry of a table is the one that follows in the list. -/
theorem Tiles.getNextEntry {entry : Nat}
    (h : Tiles mem (entry + entryLength mem entry) (mMADT + madtLength mem mMADT) entries)
    (hlt : mMADT < entry) : getNextEntry mem mMADT entry = entries.head? := by
  rw [ACPI.getNextEntry, if_neg (Nat.ne_of_gt hlt)]
  rcases h.head? with ⟨hhead, hend⟩ | ⟨hhead, hmore⟩
  · rw [hhead, if_neg (by omega)]
  · rw [hhead, if_pos hmore]

theorem Tiles.registerEntries (h : Tiles mem a (mMADT + madtLength mem mMADT) entries)
    (hlt : mMADT < a) (hfuel : entries.length ≤ fuel) :
    registerEntries mem mMADT fuel entries.head? P =
      .ok (entries.foldl (registerEntry mem) P) := by
  induction entries generalizing a fuel P with
  | nil => cases fuel <;> rfl
  | cons entry entries ih =>
    cases h with
    | cons hlength hrest =>
      obtain ⟨fuel, rfl⟩ : ∃ n, fuel = n + 1 := ⟨fuel - 1, by simp at hfuel; omega⟩
      rw [List.head?_cons, ACPI.registerEntries, hrest.getNextEntry hlt]
      exact ih hrest (by omega) (by simpa using hfuel)

/-- A table with at least one entry is walked through. -/
theorem initMADT_eq (h : Tiles mem (mMADT + 44) (mMADT + madtLength mem mMADT) entries)
    (hentries : entries ≠ []) (hfuel : entries.length ≤ fuel) :
    initMADT mem mMADT fuel P = .ok (entries.foldl (registerEntry mem) P) := by
  have hfirst : getNextEntry mem mMADT mMADT = entries.head? := by
    rw [getNextEntry, if_pos rfl]
    rcases h.head? with ⟨hhead, -⟩ | ⟨hhead, -⟩
    · exact absurd (List.head?_eq_none_iff.mp hhead) hentries
    · rw [hhead]
  rw [initMADT, hfirst]
  exact h.registerEntries (by omega) hfuel

/-! ## The enabled CPUs -/

/-- The local APIC that an entry enables. -/
def enabledLocalApic (mem : Memory) (entry : Nat) : Option (UInt8 × UInt8) :=
  if entryType mem entry = madtEntryLocalApic ∧ (localApicEntry mem entry).flags % 2 = 1 then
    some ((localApicEntry mem entry).apicID, (localApicEntry mem entry).acpiProcessorID)
  else none

/-- The APIC identifiers of the enabled CPUs, in the order of the table. -/
def enabledApicIDs (mem : Memory) (entries : List Nat) : List UInt8 :=
  (entries.filterMap (enabledLocalApic mem)).map (·.1)

theorem registerEntry_smp (entry : Nat) : (registerEntry mem P entry).smp =
    ((enabledLocalApic mem entry).elim P.smp fun e => P.smp.addAPICID e.1 e.2 true) := by
  rw [registerEntry, enabledLocalApic]
  by_cases hioapic : entryType mem entry = madtEntryIoapic
  · simp [hioapic, madtEntryIoapic, madtEntryLocalApic]
  · by_cases hlocal : entryType mem entry = madtEntryLocalApic
    · by_cases hflags : (localApicEntry mem entry).flags % 2 = 1
      · simp [hlocal, hflags, madtEntryIoapic, madtEntryLocalApic]
      · simp [hlocal, hflags, madtEntryIoapic, madtEntryLocalApic]
    · simp [hioapic, hlocal]

theorem foldl_registerEntry_smp : (entries.foldl (registerEntry mem) P).smp =
    (entries.filterMap (enabledLocalApic mem)).foldl (fun m e => m.addAPICID e.1 e.2 true) P.smp := by
  induction entries generalizing P with
  | nil => rfl
  | cons entry entries ih =>
    rw [List.foldl_cons, ih, registerEntry_smp, List.filterMap_cons]
    cases enabledLocalApic mem entry <;> rfl

/-- The enabled CPUs are numbered in the order of the table. -/
theorem registers_initMADT (hdistinct : (enabledApicIDs mem entries).Nodup) :
    (entries.foldl (registerEntry mem) (.new nrCpus)).smp.Registers
      ((enabledApicIDs mem entries).take nrCpus) := by
  rw [foldl_registerEntry_smp]
  exact SMPManager.registers_foldl hdistinct

end ACPI

end CyPhOS
