import Mathlib.Algebra.Group.Nat.Defs
import CyPhOS.Driver.GenericMMU

/-! # The MMU drivers of the ports

Both ports map 4 kB pages with tables whose upper levels `fillLinear` sets up once: consecutive
entries of an upper level point to consecutive tables below. A walk therefore ends at the entry
whose index is the number of the page (`X86MMU.getPTEEntryFromAddress_eq`,
`ARMMMU.getSecondLevelPageTableEntryFromAddress_eq`), and only the last level is modelled as
state.
-/

namespace CyPhOS

/-! ## x86 -/

namespace X86MMU

def cPAGESIZE : Nat := 4096

/-- In gigabytes. -/
def cMAX_MEMORY_SIZE : Nat := 4

def cDUMMY_PAGE : Nat := 0x0

/-- The fields of `pteEntry_t` that the driver reads or writes. -/
structure PteEntry where
  physicalPageBaseAddress : BitVec 40
  pwt : Bool
  pcd : Bool

structure X86Pagetable where
  pte : Nat → PteEntry

/-- The flags `cPTE_FLAGS` switch the cache off. -/
def fillLinear : X86Pagetable where
  pte i := { physicalPageBaseAddress := BitVec.ofNat 40 i, pwt := true, pcd := true }

/-- The walk: the four times nine bits of the page number, of which the first are 0. -/
def getPTEEntryFromAddress (address : Nat) : Nat :=
  let pdpe := (address >>> 30) &&& 0x1FF
  let pde := 512 * pdpe + ((address >>> 21) &&& 0x1FF)
  512 * pde + ((address >>> 12) &&& 0x1FF)

def getPhysicalAddressForVirtual (t : X86Pagetable) (virtualPage : Nat) : Nat :=
  (t.pte (getPTEEntryFromAddress virtualPage)).physicalPageBaseAddress.toNat <<< 12

def mapVirtualPageToPhysicalAddress (t : X86Pagetable) (virtualPage physicalPage : Nat)
    (cacheable : Bool) : X86Pagetable :=
  { t with
    pte := Function.update t.pte (getPTEEntryFromAddress virtualPage)
      { physicalPageBaseAddress := BitVec.ofNat 40 ((physicalPage &&& 0xFFFFFFFFFF000) >>> 12)
        pwt := !cacheable
        pcd := !cacheable } }

def getDummyPageAddress (cpu : UInt8) : Nat := cDUMMY_PAGE + cPAGESIZE * cpu.toNat

theorem getPTEEntryFromAddress_eq {a : Nat} (ha : a < cMAX_MEMORY_SIZE * 2 ^ 30) :
    getPTEEntryFromAddress a = a / cPAGESIZE := by
  have hmask : ∀ n, n &&& 0x1FF = n % 512 := fun n => Nat.and_two_pow_sub_one_eq_mod n 9
  simp only [getPTEEntryFromAddress, hmask, Nat.shiftRight_eq_div_pow]
  simp only [cMAX_MEMORY_SIZE, cPAGESIZE] at ha ⊢
  omega

/-- The base address written is the frame of the address given. -/
theorem base_eq {p : Nat} (hp : p < 2 ^ 52) :
    (BitVec.ofNat 40 ((p &&& 0xFFFFFFFFFF000) >>> 12)).toNat = p / cPAGESIZE := by
  have hmask : (p &&& 0xFFFFFFFFFF000) >>> 12 = p >>> 12 % 2 ^ 40 := by
    rw [Nat.shiftRight_and_distrib]
    exact Nat.and_two_pow_sub_one_eq_mod (p >>> 12) 40
  rw [BitVec.toNat_ofNat, hmask, Nat.shiftRight_eq_div_pow, cPAGESIZE]
  omega

end X86MMU

open X86MMU in
/-- The driver of the x86 port. -/
def x86MMU : GenericMMU X86Pagetable where
  fillLinear := fillLinear
  getPageSize := cPAGESIZE
  getDummyPageAddress := getDummyPageAddress
  getPhysicalAddressForVirtual := getPhysicalAddressForVirtual
  mapVirtualPageToPhysicalAddress := mapVirtualPageToPhysicalAddress
  frame t i := (t.pte i).physicalPageBaseAddress.toNat
  cacheable t i := !(t.pte i).pwt && !(t.pte i).pcd
  IsVirtual a := a < cMAX_MEMORY_SIZE * 2 ^ 30
  IsPhysical p := p < 2 ^ 52
  pageSize_pos := by decide
  dvd_pageSize := by decide
  frame_fillLinear {a} ha := by
    simp only [fillLinear, cMAX_MEMORY_SIZE, cPAGESIZE, BitVec.toNat_ofNat] at ha ⊢
    omega
  frame_map {t v p c a} hv ha hp := by
    simp only [mapVirtualPageToPhysicalAddress, getPTEEntryFromAddress_eq hv]
    rcases eq_or_ne (a / cPAGESIZE) (v / cPAGESIZE) with h | h
    · rw [if_pos h, h, Function.update_self, base_eq hp]
    · rw [if_neg h, Function.update_of_ne h]
  cacheable_map {t v p c a} hv ha := by
    simp only [mapVirtualPageToPhysicalAddress, getPTEEntryFromAddress_eq hv]
    rcases eq_or_ne (a / cPAGESIZE) (v / cPAGESIZE) with h | h
    · rw [if_pos h, h, Function.update_self, Bool.not_not, Bool.and_self]
    · rw [if_neg h, Function.update_of_ne h]
  get_div {t a} ha := by
    simp only [getPhysicalAddressForVirtual, getPTEEntryFromAddress_eq ha, Nat.shiftLeft_eq,
      cPAGESIZE]
    omega
  dvd_get {t a} _ := by
    simp only [getPhysicalAddressForVirtual, Nat.shiftLeft_eq, cPAGESIZE]
    omega
  isPhysical_get {t a} := by
    have hbase := (t.pte (getPTEEntryFromAddress a)).physicalPageBaseAddress.isLt
    simp only [getPhysicalAddressForVirtual, Nat.shiftLeft_eq]
    omega
  isVirtual_dummy {cpu} := by
    have hcpu := cpu.toNat_lt
    simp only [getDummyPageAddress, cDUMMY_PAGE, cPAGESIZE, cMAX_MEMORY_SIZE]
    omega
  isPhysical_dummy {cpu} := by
    have hcpu := cpu.toNat_lt
    simp only [getDummyPageAddress, cDUMMY_PAGE, cPAGESIZE]
    omega
  dvd_dummy {cpu} := by
    simp only [getDummyPageAddress, cDUMMY_PAGE, cPAGESIZE]
    omega

instance : DecidablePred x86MMU.IsVirtual := fun a =>
  inferInstanceAs (Decidable (a < X86MMU.cMAX_MEMORY_SIZE * 2 ^ 30))

instance : DecidablePred x86MMU.IsPhysical := fun p => inferInstanceAs (Decidable (p < 2 ^ 52))

/-! ## ARMv7 -/

namespace ARMMMU

def cPAGE_SIZE : Nat := 4096

def cDUMMY_PAGE_ADDRESS : Nat := 0x0

/-- The fields of `secondLevelDescriptor_t` that the driver reads or writes. -/
structure SecondLevelDescriptor where
  b : Bool
  c : Bool
  smallPageBaseAddress : BitVec 20

structure ARMv7PageTable where
  secondLevelTable : Nat → SecondLevelDescriptor

/-- The flags `cSECOND_LEVEL_FLAGS` switch the cache off. -/
def fillLinear : ARMv7PageTable where
  secondLevelTable i := { b := false, c := false, smallPageBaseAddress := BitVec.ofNat 20 i }

def getSecondLevelPageTableEntryFromAddress (address : Nat) : Nat :=
  256 * (address >>> 20) + ((address >>> 12) &&& 0xFF)

def getPhysicalAddressForVirtual (t : ARMv7PageTable) (virtualAddress : Nat) : Nat :=
  (t.secondLevelTable
    (getSecondLevelPageTableEntryFromAddress virtualAddress)).smallPageBaseAddress.toNat <<< 12 |||
      (virtualAddress &&& 0xFFF)

def mapVirtualPageToPhysicalAddress (t : ARMv7PageTable) (virtualPage physicalPage : Nat)
    (cacheable : Bool) : ARMv7PageTable :=
  { t with
    secondLevelTable := Function.update t.secondLevelTable
      (getSecondLevelPageTableEntryFromAddress virtualPage)
      { smallPageBaseAddress := BitVec.ofNat 20 (physicalPage >>> 12)
        b := cacheable
        c := cacheable } }

def getDummyPageAddress (cpu : UInt8) : Nat := cDUMMY_PAGE_ADDRESS + cPAGE_SIZE * cpu.toNat

theorem getSecondLevelPageTableEntryFromAddress_eq {a : Nat} :
    getSecondLevelPageTableEntryFromAddress a = a / cPAGE_SIZE := by
  have hmask : ∀ n, n &&& 0xFF = n % 256 := fun n => Nat.and_two_pow_sub_one_eq_mod n 8
  simp only [getSecondLevelPageTableEntryFromAddress, hmask, Nat.shiftRight_eq_div_pow, cPAGE_SIZE]
  omega

/-- The offset is kept: the two operands of the disjunction share no bit. -/
theorem getPhysicalAddressForVirtual_eq {t : ARMv7PageTable} {a : Nat} :
    getPhysicalAddressForVirtual t a =
      (t.secondLevelTable (a / cPAGE_SIZE)).smallPageBaseAddress.toNat * cPAGE_SIZE +
        a % cPAGE_SIZE := by
  have hmask : a &&& 0xFFF = a % 4096 := Nat.and_two_pow_sub_one_eq_mod a 12
  have hlt : a % 4096 < 2 ^ 12 := Nat.mod_lt a (by decide)
  rw [getPhysicalAddressForVirtual, getSecondLevelPageTableEntryFromAddress_eq, hmask,
    ← Nat.shiftLeft_add_eq_or_of_lt hlt, Nat.shiftLeft_eq]
  rfl

end ARMMMU

open ARMMMU in
/-- The driver of the ARMv7 port. -/
def armMMU : GenericMMU ARMv7PageTable where
  fillLinear := fillLinear
  getPageSize := cPAGE_SIZE
  getDummyPageAddress := getDummyPageAddress
  getPhysicalAddressForVirtual := getPhysicalAddressForVirtual
  mapVirtualPageToPhysicalAddress := mapVirtualPageToPhysicalAddress
  frame t i := (t.secondLevelTable i).smallPageBaseAddress.toNat
  cacheable t i := (t.secondLevelTable i).b && (t.secondLevelTable i).c
  IsVirtual a := a < 2 ^ 32
  IsPhysical p := p < 2 ^ 32
  pageSize_pos := by decide
  dvd_pageSize := by decide
  frame_fillLinear {a} ha := by
    simp only [fillLinear, cPAGE_SIZE, BitVec.toNat_ofNat]
    omega
  frame_map {t v p c a} hv ha hp := by
    simp only [mapVirtualPageToPhysicalAddress, getSecondLevelPageTableEntryFromAddress_eq]
    rcases eq_or_ne (a / cPAGE_SIZE) (v / cPAGE_SIZE) with h | h
    · rw [if_pos h, h, Function.update_self, BitVec.toNat_ofNat, Nat.shiftRight_eq_div_pow,
        cPAGE_SIZE]
      omega
    · rw [if_neg h, Function.update_of_ne h]
  cacheable_map {t v p c a} hv ha := by
    simp only [mapVirtualPageToPhysicalAddress, getSecondLevelPageTableEntryFromAddress_eq]
    rcases eq_or_ne (a / cPAGE_SIZE) (v / cPAGE_SIZE) with h | h
    · rw [if_pos h, h, Function.update_self, Bool.and_self]
    · rw [if_neg h, Function.update_of_ne h]
  get_div {t a} ha := by
    rw [getPhysicalAddressForVirtual_eq, cPAGE_SIZE]
    omega
  dvd_get {t a} ha := by
    rw [cPAGE_SIZE] at ha
    rw [getPhysicalAddressForVirtual_eq, cPAGE_SIZE]
    omega
  isPhysical_get {t a} := by
    have hbase := (t.secondLevelTable (a / cPAGE_SIZE)).smallPageBaseAddress.isLt
    rw [getPhysicalAddressForVirtual_eq]
    simp only [cPAGE_SIZE] at hbase ⊢
    omega
  isVirtual_dummy {cpu} := by
    have hcpu := cpu.toNat_lt
    simp only [getDummyPageAddress, cDUMMY_PAGE_ADDRESS, cPAGE_SIZE]
    omega
  isPhysical_dummy {cpu} := by
    have hcpu := cpu.toNat_lt
    simp only [getDummyPageAddress, cDUMMY_PAGE_ADDRESS, cPAGE_SIZE]
    omega
  dvd_dummy {cpu} := by
    simp only [getDummyPageAddress, cDUMMY_PAGE_ADDRESS, cPAGE_SIZE]
    omega

instance : DecidablePred armMMU.IsVirtual := fun a => inferInstanceAs (Decidable (a < 2 ^ 32))

instance : DecidablePred armMMU.IsPhysical := fun p => inferInstanceAs (Decidable (p < 2 ^ 32))

/-! ## Moving a page -/

namespace GenericMMU

variable {τ : Type*} {mmu : GenericMMU τ} {cpu : UInt8} {s : State τ} {virtualPage physicalPage : Nat}

/-- Aligned addresses of different pages. -/
theorem page_ne {a b : Nat} (ha : mmu.getPageSize ∣ a) (hb : mmu.getPageSize ∣ b) (hne : a ≠ b) :
    mmu.page a ≠ mmu.page b := fun h => hne (Nat.div_left_inj ha hb |>.mp h)

/-- Whatever a page table maps where: a move keeps what is read through the page, maps the page to
the target with the cacheability asked for, and changes no other page and no other frame. -/
theorem move_preserves_content (cacheable : Bool) (hv : mmu.IsVirtual virtualPage)
    (hpv : mmu.IsVirtual physicalPage) (hp : mmu.IsPhysical physicalPage)
    (hva : mmu.getPageSize ∣ virtualPage) (hpa : mmu.getPageSize ∣ physicalPage)
    (hne : virtualPage ≠ mmu.getDummyPageAddress cpu)
    (hdummy : mmu.IsIdentity s.pageTable (mmu.getDummyPageAddress cpu)) :
    let s' := mmu.moveVirtualPageToPhysicalAddress cpu s virtualPage physicalPage cacheable
    mmu.Moved s s' virtualPage physicalPage cacheable ∧
      mmu.IsIdentity s'.pageTable (mmu.getDummyPageAddress cpu) := by
  have hne' := page_ne hva mmu.dvd_dummy hne
  have hmoved : mmu.Moved s _ virtualPage physicalPage cacheable :=
    move_moved ⟨hv, hpv, hp, hne', hdummy⟩ hva hpa
  refine ⟨hmoved, ?_⟩
  rw [IsIdentity, hmoved.frame_of_ne _ mmu.isVirtual_dummy hne'.symm]
  exact hdummy

/-- On x86 to a frame whose own page is mapped elsewhere, on ARM to the frame the page is in. -/
theorem move_preserves_content_ports :
    (let s : State X86MMU.X86Pagetable :=
      { pageTable := X86MMU.mapVirtualPageToPhysicalAddress X86MMU.fillLinear 0x200000 0x300000 true
        memory := fun a => a.toUInt8 }
    let s' := x86MMU.moveVirtualPageToPhysicalAddress 1 s 0x100000 0x200000 true
    x86MMU.Moved s s' 0x100000 0x200000 true ∧
      x86MMU.IsIdentity s'.pageTable (x86MMU.getDummyPageAddress 1)) ∧
    (let s : State ARMMMU.ARMv7PageTable :=
      { pageTable := ARMMMU.mapVirtualPageToPhysicalAddress ARMMMU.fillLinear 0x100000 0x200000 true
        memory := fun a => a.toUInt8 }
    let s' := armMMU.moveVirtualPageToPhysicalAddress 0 s 0x100000 0x200000 false
    armMMU.Moved s s' 0x100000 0x200000 false ∧
      armMMU.IsIdentity s'.pageTable (armMMU.getDummyPageAddress 0)) :=
  ⟨move_preserves_content true (by decide) (by decide) (by decide) (by decide) (by decide)
    (by decide) (by decide), move_preserves_content false (by decide) (by decide) (by decide)
      (by decide) (by decide) (by decide) (by decide)⟩

end GenericMMU
end CyPhOS
