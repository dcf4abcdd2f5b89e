import CyPhOS.Driver.MMUPorts
import CyPhOS.Lib.BitField
import CyPhOS.Lib.RadixTable

/-! # The page table of the ARMv7 port in memory

`ARMv7PageTable` lies in memory as two arrays of 32 bit descriptors. `fillLinear` moves a pointer and
an address through each of them, and `getSecondLevelPageTableEntryFromAddress` follows the base
address in a first-level descriptor. `Tables p m t` says that the memory `m` holds at the place `p` a
first level that is linked throughout, and the second-level table `t`.
-/

namespace CyPhOS

open RadixTable

namespace ARMPaging

/-- Memory in words of 32 bits, by the addresses of their first bytes. -/
abbrev Memory := Nat → BitVec 32

/-- A read, a change and a write of one word. -/
def modify (m : Memory) (a : Nat) (f : BitVec 32 → BitVec 32) : Memory :=
  Function.update m a (f (m a))

/-! ## The arrays -/

def cFIRST_LEVEL_ENTRIES : Nat := 4096

def cSECOND_LEVEL_ENTIRES : Nat := 256

def cFIRST_LEVEL_FLAGS : BitVec 32 := 0x1

def cSECOND_LEVEL_FLAGS : BitVec 32 := 0x402

/-- Where an `ARMv7PageTable` lies: both arrays at multiples of `0x10000`, the second behind the
first. -/
structure Placement where
  firstLevelTable : Nat
  aligned : 0x10000 ∣ firstLevelTable
  bound : firstLevelTable + 0x10000 + 4 * (cSECOND_LEVEL_ENTIRES * cFIRST_LEVEL_ENTRIES) ≤ 2 ^ 32

namespace Placement

variable (p : Placement)

def secondLevelTable : Nat := p.firstLevelTable + 0x10000

theorem secondLevelTable_le : p.secondLevelTable + 0x400000 ≤ 2 ^ 32 := p.bound

end Placement

variable (p : Placement)

def fillLinear (m : Memory) : Memory :=
  let m := fillFrom 4 (· + BitVec.ofNat 32 (4 * cSECOND_LEVEL_ENTIRES)) (· ||| cFIRST_LEVEL_FLAGS)
    cFIRST_LEVEL_ENTRIES p.firstLevelTable (BitVec.ofNat 32 p.secondLevelTable) m
  fillFrom 4 (· + 4096#32) (· ||| cSECOND_LEVEL_FLAGS)
    (cFIRST_LEVEL_ENTRIES * cSECOND_LEVEL_ENTIRES) p.secondLevelTable 0x0#32 m

/-! ## The fields of the descriptors -/

/-- The base address in a first-level descriptor, shifted to an address. -/
def tableAddress (entry : BitVec 32) : Nat := (BitField.get 10 22 entry).toNat <<< 10

/-- The bit that makes a second-level descriptor one of a small page. -/
def present (entry : BitVec 32) : Bool := entry.getLsbD 1

def b (entry : BitVec 32) : BitVec 1 := BitField.get 2 1 entry

def c (entry : BitVec 32) : BitVec 1 := BitField.get 3 1 entry

def smallPageBaseAddress (entry : BitVec 32) : BitVec 20 := BitField.get 12 20 entry

/-! ## The driver -/

/-- The manual walk; the address of the entry it ends at. -/
def getSecondLevelPageTableEntryFromAddress (m : Memory) (address : Nat) : Nat :=
  let index := address >>> 20
  let firstEntry := m (p.firstLevelTable + 4 * index)
  let index := (address >>> 12) &&& 0xFF
  tableAddress firstEntry + 4 * index

def getPhysicalAddressForVirtual (m : Memory) (virtualAddress : Nat) : Nat :=
  (smallPageBaseAddress
    (m (getSecondLevelPageTableEntryFromAddress p m virtualAddress))).toNat <<< 12 |||
      (virtualAddress &&& 0xFFF)

def mapVirtualPageToPhysicalAddress (m : Memory) (virtualPage physicalPage : Nat)
    (cacheable : Bool) : Memory :=
  let entry := getSecondLevelPageTableEntryFromAddress p m virtualPage
  let m := modify m entry (BitField.set 12 (BitVec.ofNat 20 (physicalPage >>> 12)))
  let m := modify m entry (BitField.set 2 (BitVec.ofBool cacheable))
  modify m entry (BitField.set 3 (BitVec.ofBool cacheable))

/-! ## What the descriptors hold -/

theorem toNat_iterate_add {w : Nat} (v c : BitVec w) (i : Nat) :
    ((· + c)^[i] v).toNat = (v.toNat + i * c.toNat) % 2 ^ w := by
  induction i with
  | zero => simp [Nat.mod_eq_of_lt v.isLt]
  | succ i ih =>
    rw [Function.iterate_succ_apply', BitVec.toNat_add, ih, Nat.mod_add_mod, Nat.succ_mul,
      Nat.add_assoc]

theorem tableAddress_flags {entry : BitVec 32} (h : 0x400 ∣ entry.toNat) :
    tableAddress (entry ||| cFIRST_LEVEL_FLAGS) = entry.toNat := by
  have hflags : cFIRST_LEVEL_FLAGS.toNat < 2 ^ 10 := by decide
  have hdiv := BitField.or_flags_div (s := 10) h hflags
  have hlt := entry.isLt
  rw [tableAddress, BitField.toNat_get, BitVec.toNat_or, hdiv, Nat.shiftLeft_eq]
  omega

/-- The descriptor that `fillLinear` writes for a page. -/
theorem smallPageBaseAddress_flags {i : Nat} :
    smallPageBaseAddress ((· + 4096#32)^[i] 0#32 ||| cSECOND_LEVEL_FLAGS) = BitVec.ofNat 20 i := by
  have hflags : cSECOND_LEVEL_FLAGS.toNat < 2 ^ 12 := by decide
  have hvalue : ((· + 4096#32)^[i] 0#32).toNat = i * 4096 % 2 ^ 32 := by
    rw [toNat_iterate_add, BitVec.toNat_zero, Nat.zero_add]
    rfl
  have hdvd : 2 ^ 12 ∣ i * 4096 % 2 ^ 32 := by omega
  have hdiv := BitField.or_flags_div hdvd hflags
  apply BitVec.eq_of_toNat_eq
  rw [smallPageBaseAddress, BitField.toNat_get, BitVec.toNat_or, hvalue, hdiv,
    BitVec.toNat_ofNat]
  omega

/-- The low bits of that descriptor are the flags. -/
theorem getLsbD_flags {i j : Nat} (hj : j < 12) :
    ((· + 4096#32)^[i] 0#32 ||| cSECOND_LEVEL_FLAGS).getLsbD j =
      cSECOND_LEVEL_FLAGS.getLsbD j := by
  have hlow : ((· + 4096#32)^[i] 0#32).getLsbD j = false := by
    rw [BitVec.getLsbD, toNat_iterate_add, BitVec.toNat_zero, Nat.zero_add,
      Nat.testBit_mod_two_pow]
    have hmul : i * (4096#32).toNat = i * 2 ^ 12 := rfl
    rw [hmul, Nat.testBit_mul_two_pow]
    simp [Nat.not_le.mpr hj]
  rw [BitVec.getLsbD_or, hlow, Bool.false_or]

/-- The descriptor as the table of the second level alone has it. -/
def secondLevelDescriptor (entry : BitVec 32) : ARMMMU.SecondLevelDescriptor where
  b := entry.getLsbD 2
  c := entry.getLsbD 3
  smallPageBaseAddress := smallPageBaseAddress entry

theorem secondLevelDescriptor_map {base : BitVec 20} {cacheable : Bool} {entry : BitVec 32} :
    secondLevelDescriptor (BitField.set 3 (BitVec.ofBool cacheable)
        (BitField.set 2 (BitVec.ofBool cacheable) (BitField.set 12 base entry))) =
      { b := cacheable, c := cacheable, smallPageBaseAddress := base } := by
  have hbase : smallPageBaseAddress (BitField.set 3 (BitVec.ofBool cacheable)
      (BitField.set 2 (BitVec.ofBool cacheable) (BitField.set 12 base entry))) = base := by
    rw [smallPageBaseAddress, BitField.get_set_of_disjoint (by omega) (by omega),
      BitField.get_set_of_disjoint (by omega) (by omega), BitField.get_set (by omega)]
  rw [secondLevelDescriptor, hbase]
  simp only [BitField.getLsbD_set, Nat.reduceLeDiff]
  simp

theorem present_map {base : BitVec 20} {cacheable : Bool} {entry : BitVec 32} :
    present (BitField.set 3 (BitVec.ofBool cacheable)
        (BitField.set 2 (BitVec.ofBool cacheable) (BitField.set 12 base entry))) =
      present entry := by
  simp only [present, BitField.getLsbD_set, Nat.reduceLeDiff]
  simp

/-! ## The tables in memory -/

/-- The number of second-level descriptors. -/
def pages : Nat := cFIRST_LEVEL_ENTRIES * cSECOND_LEVEL_ENTIRES

/-- The first level is linked throughout, and the second one holds the table `t`. -/
structure Tables (p : Placement) (m : Memory) (t : ARMMMU.ARMv7PageTable) : Prop where
  firstLevel : LinkedTo 4 tableAddress 8 m p.firstLevelTable cFIRST_LEVEL_ENTRIES p.secondLevelTable
  present : ∀ i < pages, present (m (p.secondLevelTable + 4 * i)) = true
  secondLevel : ∀ i < pages,
    secondLevelDescriptor (m (p.secondLevelTable + 4 * i)) = t.secondLevelTable i

/-- Both loops in terms of their counters. -/
theorem fillLinear_eq (m : Memory) : fillLinear p m =
    fill 4 p.secondLevelTable (fun i => (· + 4096#32)^[i] 0x0#32 ||| cSECOND_LEVEL_FLAGS) 0 pages
      (fill 4 p.firstLevelTable (fun i =>
        (· + BitVec.ofNat 32 (4 * cSECOND_LEVEL_ENTIRES))^[i] (BitVec.ofNat 32 p.secondLevelTable)
          ||| cFIRST_LEVEL_FLAGS) 0 cFIRST_LEVEL_ENTRIES m) := by
  rw [fillLinear, fillFrom_eq_fill, fillFrom_eq_fill]
  rfl

theorem fillLinear_tables (m : Memory) : Tables p (fillLinear p m) ARMMMU.fillLinear := by
  have hsecond : p.secondLevelTable = p.firstLevelTable + 0x10000 := rfl
  have hbound := p.secondLevelTable_le
  have haligned := p.aligned
  rw [fillLinear_eq]
  constructor
  · intro i hi
    have hentries : cFIRST_LEVEL_ENTRIES = 4096 := rfl
    have hvalue : ((· + BitVec.ofNat 32 (4 * cSECOND_LEVEL_ENTIRES))^[i]
        (BitVec.ofNat 32 p.secondLevelTable)).toNat = p.secondLevelTable + 4 * (2 ^ 8 * i) := by
      have hstep : (BitVec.ofNat 32 (4 * cSECOND_LEVEL_ENTIRES)).toNat = 1024 := rfl
      rw [toNat_iterate_add, hstep, BitVec.toNat_ofNat]
      omega
    rw [fill_frame (by omega) (by decide), fill_apply (by decide) (Nat.zero_le i) (by omega),
      tableAddress_flags (by omega), hvalue]
  · intro i hi
    rw [fill_apply (by decide) (Nat.zero_le i) (by omega), present, getLsbD_flags (by decide)]
    rfl
  · intro i hi
    rw [fill_apply (by decide) (Nat.zero_le i) (by omega), secondLevelDescriptor,
      smallPageBaseAddress_flags, getLsbD_flags (by decide), getLsbD_flags (by decide)]
    rfl

variable {p} {m : Memory} {t : ARMMMU.ARMv7PageTable} {a : Nat}

theorem page_lt (ha : a < 2 ^ 32) : a / ARMMMU.cPAGE_SIZE < pages := by
  simp only [ARMMMU.cPAGE_SIZE, pages, cFIRST_LEVEL_ENTRIES, cSECOND_LEVEL_ENTIRES]
  omega

/-- The walk ends at the descriptor of the page. -/
theorem Tables.getSecondLevelPageTableEntryFromAddress_eq (h : Tables p m t) (ha : a < 2 ^ 32) :
    getSecondLevelPageTableEntryFromAddress p m a =
      p.secondLevelTable + 4 * (a / ARMMMU.cPAGE_SIZE) := by
  have hentries : cFIRST_LEVEL_ENTRIES = 4096 := rfl
  have hindex : (a >>> 12) &&& 0xFF = a / 2 ^ 12 % 2 ^ 8 := by
    rw [Nat.shiftRight_eq_div_pow]
    exact Nat.and_two_pow_sub_one_eq_mod _ 8
  have hfirst := h.firstLevel.descend (s := 12) (a := a) (by omega)
  rw [getSecondLevelPageTableEntryFromAddress]
  simp only [hindex]
  rw [Nat.shiftRight_eq_div_pow]
  exact hfirst

/-- Two addresses lead to the same descriptor exactly if they lie in the same page. -/
theorem Tables.getSecondLevelPageTableEntryFromAddress_inj (h : Tables p m t) {b : Nat}
    (ha : a < 2 ^ 32) (hb : b < 2 ^ 32) :
    getSecondLevelPageTableEntryFromAddress p m a =
        getSecondLevelPageTableEntryFromAddress p m b ↔
      a / ARMMMU.cPAGE_SIZE = b / ARMMMU.cPAGE_SIZE := by
  rw [h.getSecondLevelPageTableEntryFromAddress_eq ha,
    h.getSecondLevelPageTableEntryFromAddress_eq hb]
  omega

/-- A write to a second-level descriptor that leaves it one of a small page. -/
theorem Tables.modify {i : Nat} {f : BitVec 32 → BitVec 32} (h : Tables p m t)
    (hpresent : ∀ entry, ARMPaging.present (f entry) = ARMPaging.present entry) :
    Tables p (ARMPaging.modify m (p.secondLevelTable + 4 * i) f)
      { secondLevelTable := Function.update t.secondLevelTable i
          (secondLevelDescriptor (f (m (p.secondLevelTable + 4 * i)))) } := by
  have hsecond : p.secondLevelTable = p.firstLevelTable + 0x10000 := rfl
  constructor
  · refine h.firstLevel.congr fun j hj => Function.update_of_ne ?_ _ _
    simp only [cFIRST_LEVEL_ENTRIES] at hj
    omega
  · intro j hj
    rcases eq_or_ne j i with rfl | hne
    · rw [ARMPaging.modify, Function.update_self, hpresent]
      exact h.present j hj
    · rw [ARMPaging.modify, Function.update_of_ne (by omega)]
      exact h.present j hj
  · intro j hj
    rcases eq_or_ne j i with rfl | hne
    · rw [ARMPaging.modify, Function.update_self]
      exact (Function.update_self j _ t.secondLevelTable).symm
    · rw [ARMPaging.modify, Function.update_of_ne (by omega), h.secondLevel j hj]
      exact (Function.update_of_ne hne _ t.secondLevelTable).symm

theorem modify_modify {f g : BitVec 32 → BitVec 32} :
    ARMPaging.modify (ARMPaging.modify m a f) a g = ARMPaging.modify m a fun x => g (f x) := by
  rw [ARMPaging.modify, ARMPaging.modify, Function.update_self, Function.update_idem]
  rfl

/-- Mapping a page changes the second-level table as the model of that table alone says. -/
theorem Tables.map {virtualPage physicalPage : Nat} {cacheable : Bool} (h : Tables p m t)
    (hv : virtualPage < 2 ^ 32) :
    Tables p (mapVirtualPageToPhysicalAddress p m virtualPage physicalPage cacheable)
      (ARMMMU.mapVirtualPageToPhysicalAddress t virtualPage physicalPage cacheable) := by
  have hmap := h.modify (i := virtualPage / ARMMMU.cPAGE_SIZE)
    (f := fun x => BitField.set 3 (BitVec.ofBool cacheable) (BitField.set 2
      (BitVec.ofBool cacheable) (BitField.set 12 (BitVec.ofNat 20 (physicalPage >>> 12)) x)))
    fun _ => present_map
  rw [secondLevelDescriptor_map] at hmap
  rw [mapVirtualPageToPhysicalAddress, modify_modify, modify_modify,
    h.getSecondLevelPageTableEntryFromAddress_eq hv, ARMMMU.mapVirtualPageToPhysicalAddress,
    ARMMMU.getSecondLevelPageTableEntryFromAddress_eq]
  exact hmap

/-- What the second level alone says of an address. -/
theorem Tables.smallPageBaseAddress_eq (h : Tables p m t) (ha : a < 2 ^ 32) :
    smallPageBaseAddress (m (getSecondLevelPageTableEntryFromAddress p m a)) =
      (t.secondLevelTable (a / ARMMMU.cPAGE_SIZE)).smallPageBaseAddress := by
  rw [h.getSecondLevelPageTableEntryFromAddress_eq ha, ← h.secondLevel _ (page_lt ha)]
  rfl

theorem Tables.getPhysicalAddressForVirtual_eq (h : Tables p m t) (ha : a < 2 ^ 32) :
    getPhysicalAddressForVirtual p m a = ARMMMU.getPhysicalAddressForVirtual t a := by
  rw [getPhysicalAddressForVirtual, h.smallPageBaseAddress_eq ha,
    ARMMMU.getPhysicalAddressForVirtual, ARMMMU.getSecondLevelPageTableEntryFromAddress_eq]

end ARMPaging

end CyPhOS
