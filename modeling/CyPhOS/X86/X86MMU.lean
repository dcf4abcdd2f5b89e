import Mathlib.Algebra.Group.Nat.Defs
import CyPhOS.Driver.MMUPorts
import CyPhOS.Lib.BitField
import CyPhOS.Lib.RadixTable

/-! # The page table of the x86 port in memory

`X86Pagetable` lies in memory as four arrays of 64 bit entries, one for each level. `fillLinear`
writes them and `getPTEEntryFromAddress` walks through them, as the hardware does, by following the
addresses in the entries.

`Tables p m t` says that the memory `m` holds at the place `p` three upper levels that are linked
throughout, and last-level entries that are present and hold the fields of the table `t`, the model
of the last level alone. It holds after `fillLinear` and is kept by
`mapVirtualPageToPhysicalAddress`.
-/

namespace CyPhOS

open RadixTable

namespace X86Paging

/-- Memory in words of 64 bits, by the addresses of their first bytes. -/
abbrev Memory := Nat → BitVec 64

/-- A read, a change and a write of one word. -/
def modify (m : Memory) (a : Nat) (f : BitVec 64 → BitVec 64) : Memory :=
  Function.update m a (f (m a))

/-! ## The arrays -/

/-- In gigabytes. -/
def cMAX_MEMORY_SIZE : Nat := 4

def pml4Entries : Nat := 512

def pdpeEntries : Nat := 512

def pdeEntries : Nat := 512 * cMAX_MEMORY_SIZE

def pteEntries : Nat := 512 * 512 * cMAX_MEMORY_SIZE

def cPML4_FLAGS : Nat := 0x7

def cPDPE_FLAGS : Nat := 0x7

def cPDE_FLAGS : Nat := 0x7

def cPTE_FLAGS : Nat := 0x1F

/-- Where an `X86Pagetable` lies: on a page boundary, at physical addresses that an entry can
hold. -/
structure Placement where
  pml4 : Nat
  aligned : 0x1000 ∣ pml4
  bound : pml4 + 8 * (pml4Entries + pdpeEntries + pdeEntries + pteEntries) ≤ 2 ^ 52

namespace Placement

variable (p : Placement)

def pdpe : Nat := p.pml4 + 8 * pml4Entries

def pde : Nat := p.pdpe + 8 * pdpeEntries

def pte : Nat := p.pde + 8 * pdeEntries

theorem pdpe_eq : p.pdpe = p.pml4 + 0x1000 := by
  rw [pdpe, pml4Entries]

theorem pde_eq : p.pde = p.pml4 + 0x2000 := by
  have hpdpe := p.pdpe_eq
  simp only [pde, pdpeEntries]
  omega

theorem pte_eq : p.pte = p.pml4 + 0x6000 := by
  have hpde := p.pde_eq
  simp only [pte, pdeEntries, cMAX_MEMORY_SIZE]
  omega

theorem pml4_le : p.pml4 + 0x806000 ≤ 2 ^ 52 := by
  have hbound := p.bound
  simp only [pml4Entries, pdpeEntries, pdeEntries, pteEntries, cMAX_MEMORY_SIZE] at hbound
  omega

end Placement

variable (p : Placement)

def fillLinear (m : Memory) : Memory :=
  let m := Function.update m p.pml4 (BitVec.ofNat 64 (p.pdpe ||| cPML4_FLAGS))
  let m := fill 8 p.pml4 (fun _ => BitField.set 0 0#1 (BitVec.ofNat 64 cPML4_FLAGS)) 1
    (pml4Entries - 1) m
  let m := fill 8 p.pdpe (fun i => BitVec.ofNat 64 ((p.pde + i * 0x1000) ||| cPDPE_FLAGS)) 0
    cMAX_MEMORY_SIZE m
  -- without the present bit
  let m := fill 8 p.pdpe (fun _ => BitVec.ofNat 64 (cPDPE_FLAGS &&& 0xFFFFFFFE))
    cMAX_MEMORY_SIZE (pdpeEntries - cMAX_MEMORY_SIZE) m
  let m := fill 8 p.pde (fun i => BitVec.ofNat 64 ((p.pte + i * 0x1000) ||| cPDE_FLAGS)) 0
    pdeEntries m
  -- the product is a `uint32_t`
  fill 8 p.pte (fun i => BitVec.ofNat 64 ((0x1000 * i) % 2 ^ 32 ||| cPTE_FLAGS)) 0 pteEntries m

/-! ## The fields of an entry -/

/-- The table that an entry of an upper level points to. -/
def tableAddress (entry : BitVec 64) : Nat := (entry &&& 0xFFFFFFFFFF000#64).toNat

def present (entry : BitVec 64) : Bool := entry.getLsbD 0

def physicalPageBaseAddress (entry : BitVec 64) : BitVec 40 := BitField.get 12 40 entry

def pwt (entry : BitVec 64) : BitVec 1 := BitField.get 3 1 entry

def pcd (entry : BitVec 64) : BitVec 1 := BitField.get 4 1 entry

/-! ## The driver -/

/-- The manual walk; the address of the entry it ends at. -/
def getPTEEntryFromAddress (m : Memory) (address : Nat) : Nat :=
  let index := (address >>> 39) &&& 0x1FF
  let pml4_entry := m (p.pml4 + 8 * index)
  let pdpe_address := tableAddress pml4_entry
  let index := (address >>> 30) &&& 0x1FF
  let pdpe_entry := m (pdpe_address + 8 * index)
  let pde_address := tableAddress pdpe_entry
  let index := (address >>> 21) &&& 0x1FF
  let pde_entry := m (pde_address + 8 * index)
  let pte_address := tableAddress pde_entry
  let index := (address >>> 12) &&& 0x1FF
  pte_address + 8 * index

def virtualToPhysical (m : Memory) (address : Nat) : Nat :=
  (physicalPageBaseAddress (m (getPTEEntryFromAddress p m address))).toNat <<< 12 |||
    (address &&& 0x1FF)

def getPhysicalAddressForVirtual (m : Memory) (virtualPage : Nat) : Nat :=
  (physicalPageBaseAddress (m (getPTEEntryFromAddress p m virtualPage))).toNat <<< 12

/-- The bits `pwt` and `pcd` of an entry. -/
def setCacheable (cacheable : Bool) (entry : BitVec 64) : BitVec 64 :=
  BitField.set 4 (BitVec.ofBool !cacheable) (BitField.set 3 (BitVec.ofBool !cacheable) entry)

def mapVirtualPageToPhysicalAddress (m : Memory) (virtualPage physicalPage : Nat)
    (cacheable : Bool) : Memory :=
  let pte := getPTEEntryFromAddress p m virtualPage
  let m := modify m pte
    (BitField.set 12 (BitVec.ofNat 40 ((physicalPage &&& 0xFFFFFFFFFF000) >>> 12)))
  modify m pte (setCacheable cacheable)

/-! ## What the entries hold -/

theorem tableAddress_flags {a flags : Nat} (ha : 0x1000 ∣ a) (hlt : a < 2 ^ 52)
    (hflags : flags < 0x1000) : tableAddress (BitVec.ofNat 64 (a ||| flags)) = a := by
  have hsum : a ||| flags = a + flags := BitField.or_flags (s := 12) ha hflags
  have hdiv : (a ||| flags) / 2 ^ 12 = a / 2 ^ 12 := BitField.or_flags_div ha hflags
  have hmask : (0xFFFFFFFFFF000#64).toNat = (2 ^ 40 - 1) <<< 12 := rfl
  rw [tableAddress, BitVec.toNat_and, BitVec.toNat_ofNat, Nat.mod_eq_of_lt (by omega), hmask,
    BitField.and_mask, hdiv]
  omega

/-- The entry that `fillLinear` writes for a page. -/
theorem physicalPageBaseAddress_flags {i : Nat} (hi : i < 2 ^ 20) :
    physicalPageBaseAddress (BitVec.ofNat 64 ((0x1000 * i) % 2 ^ 32 ||| cPTE_FLAGS)) =
      BitVec.ofNat 40 i := by
  have hmod : 0x1000 * i % 2 ^ 32 = 0x1000 * i := Nat.mod_eq_of_lt (by omega)
  have hflags : cPTE_FLAGS < 2 ^ 12 := by decide
  have hdvd : 2 ^ 12 ∣ 0x1000 * i := Nat.dvd_mul_right _ i
  have hsum := BitField.or_flags hdvd hflags
  have hdiv := BitField.or_flags_div hdvd hflags
  have hlt : (0x1000 * i ||| cPTE_FLAGS) % 2 ^ 64 = 0x1000 * i ||| cPTE_FLAGS :=
    Nat.mod_eq_of_lt (by omega)
  apply BitVec.eq_of_toNat_eq
  rw [physicalPageBaseAddress, BitField.toNat_get, hmod, BitVec.toNat_ofNat, BitVec.toNat_ofNat,
    hlt, hdiv]
  omega

/-- The flags of that entry: present, and not cached. -/
theorem getLsbD_flags {i j : Nat} (hj : j < 5) :
    (BitVec.ofNat 64 ((0x1000 * i) % 2 ^ 32 ||| cPTE_FLAGS)).getLsbD j = true := by
  have hflags : cPTE_FLAGS.testBit j = true := by
    rw [show cPTE_FLAGS = 2 ^ 5 - 1 from rfl, Nat.testBit_two_pow_sub_one, decide_eq_true hj]
  rw [BitVec.getLsbD_ofNat, Nat.testBit_or, hflags, Bool.or_true, Bool.and_true,
    decide_eq_true (by omega)]

/-- The entry as the table of the last level alone has it. -/
def pteEntry (entry : BitVec 64) : X86MMU.PteEntry where
  physicalPageBaseAddress := physicalPageBaseAddress entry
  pwt := entry.getLsbD 3
  pcd := entry.getLsbD 4

theorem pteEntry_map {base : BitVec 40} {cacheable : Bool} {entry : BitVec 64} :
    pteEntry (setCacheable cacheable (BitField.set 12 base entry)) =
      { physicalPageBaseAddress := base, pwt := !cacheable, pcd := !cacheable } := by
  have hbase : physicalPageBaseAddress (setCacheable cacheable (BitField.set 12 base entry)) =
      base := by
    rw [physicalPageBaseAddress, setCacheable, BitField.get_set_of_disjoint (by omega) (by omega),
      BitField.get_set_of_disjoint (by omega) (by omega), BitField.get_set (by omega)]
  have hpwt : (setCacheable cacheable (BitField.set 12 base entry)).getLsbD 3 = !cacheable := by
    simp only [setCacheable, BitField.getLsbD_set, Nat.reduceLeDiff]
    simp
  have hpcd : (setCacheable cacheable (BitField.set 12 base entry)).getLsbD 4 = !cacheable := by
    simp only [setCacheable, BitField.getLsbD_set, Nat.reduceLeDiff]
    simp
  rw [pteEntry, hbase, hpwt, hpcd]

theorem present_map {base : BitVec 40} {cacheable : Bool} {entry : BitVec 64} :
    present (setCacheable cacheable (BitField.set 12 base entry)) = present entry := by
  simp only [present, setCacheable, BitField.getLsbD_set, Nat.reduceLeDiff]
  simp

/-! ## The tables in memory -/

/-- The upper levels are linked throughout, and the last one holds the table `t`. -/
structure Tables (p : Placement) (m : Memory) (t : X86MMU.X86Pagetable) : Prop where
  pml4 : LinkedTo 8 tableAddress 9 m p.pml4 1 p.pdpe
  pdpe : LinkedTo 8 tableAddress 9 m p.pdpe cMAX_MEMORY_SIZE p.pde
  pde : LinkedTo 8 tableAddress 9 m p.pde pdeEntries p.pte
  present : ∀ i < pteEntries, present (m (p.pte + 8 * i)) = true
  pte : ∀ i < pteEntries, pteEntry (m (p.pte + 8 * i)) = t.pte i

theorem fillLinear_tables (m : Memory) : Tables p (fillLinear p m) X86MMU.fillLinear := by
  have hpdpe := p.pdpe_eq
  have hpde := p.pde_eq
  have hpte := p.pte_eq
  have hbound := p.pml4_le
  have haligned := p.aligned
  -- the arrays are filled upwards, so what is written later lies behind
  constructor
  · intro i hi
    obtain rfl : i = 0 := by omega
    rw [fillLinear, fill_frame (by omega) (by decide), fill_frame (by omega) (by decide),
      fill_frame (by omega) (by decide), fill_frame (by omega) (by decide),
      fill_frame (by omega) (by decide), Nat.mul_zero, Nat.add_zero, Function.update_self]
    exact tableAddress_flags (by omega) (by omega) (by decide)
  · intro i hi
    have hfour : cMAX_MEMORY_SIZE = 4 := rfl
    rw [fillLinear, fill_frame (by omega) (by decide), fill_frame (by omega) (by decide),
      fill_frame (by omega) (by decide), fill_apply (by decide) (Nat.zero_le i) (by omega)]
    rw [tableAddress_flags (by omega) (by omega) (by decide)]
    omega
  · intro i hi
    have hentries : pdeEntries = 2048 := rfl
    rw [fillLinear, fill_frame (by omega) (by decide),
      fill_apply (by decide) (Nat.zero_le i) (by omega)]
    rw [tableAddress_flags (by omega) (by omega) (by decide)]
    omega
  · intro i hi
    rw [fillLinear, fill_apply (by decide) (Nat.zero_le i) (by omega)]
    exact getLsbD_flags (by decide)
  · intro i hi
    have hentries : pteEntries = 2 ^ 20 := rfl
    rw [fillLinear, fill_apply (by decide) (Nat.zero_le i) (by omega), pteEntry,
      physicalPageBaseAddress_flags (by omega), getLsbD_flags (by decide),
      getLsbD_flags (by decide)]
    rfl

variable {p} {m : Memory} {t : X86MMU.X86Pagetable} {a : Nat}

/-- The walk ends at the entry of the page. -/
theorem Tables.getPTEEntryFromAddress_eq (h : Tables p m t) (ha : a < cMAX_MEMORY_SIZE * 2 ^ 30) :
    getPTEEntryFromAddress p m a = p.pte + 8 * (a / X86MMU.cPAGESIZE) := by
  have hindex : ∀ s, (a >>> s) &&& 0x1FF = a / 2 ^ s % 2 ^ 9 := fun s => by
    rw [Nat.shiftRight_eq_div_pow]
    exact Nat.and_two_pow_sub_one_eq_mod _ 9
  have hfour : cMAX_MEMORY_SIZE = 4 := rfl
  have hentries : pdeEntries = 2048 := rfl
  have hfirst : a / 2 ^ 39 % 2 ^ 9 = a / 2 ^ 39 := by omega
  have hpml4 := h.pml4.descend (s := 30) (a := a) (by omega)
  have hpdpe := h.pdpe.descend (s := 21) (a := a) (by omega)
  have hpde := h.pde.descend (s := 12) (a := a) (by omega)
  simp only [getPTEEntryFromAddress, hindex, hfirst]
  rw [hpml4, hpdpe, hpde]
  rfl

/-- Two addresses below 4 GiB lead to the same entry exactly if they lie in the same page. -/
theorem Tables.getPTEEntryFromAddress_inj (h : Tables p m t) {b : Nat}
    (ha : a < cMAX_MEMORY_SIZE * 2 ^ 30) (hb : b < cMAX_MEMORY_SIZE * 2 ^ 30) :
    getPTEEntryFromAddress p m a = getPTEEntryFromAddress p m b ↔
      a / X86MMU.cPAGESIZE = b / X86MMU.cPAGESIZE := by
  rw [h.getPTEEntryFromAddress_eq ha, h.getPTEEntryFromAddress_eq hb]
  omega

theorem page_lt (ha : a < cMAX_MEMORY_SIZE * 2 ^ 30) : a / X86MMU.cPAGESIZE < pteEntries := by
  simp only [cMAX_MEMORY_SIZE, X86MMU.cPAGESIZE, pteEntries] at ha ⊢
  omega

/-- A write to an entry of the last level that leaves it present. -/
theorem Tables.modify {i : Nat} {f : BitVec 64 → BitVec 64} (h : Tables p m t)
    (hpresent : ∀ entry, X86Paging.present (f entry) = X86Paging.present entry) :
    Tables p (X86Paging.modify m (p.pte + 8 * i) f)
      { pte := Function.update t.pte i (pteEntry (f (m (p.pte + 8 * i)))) } := by
  have hpdpe := p.pdpe_eq
  have hpde := p.pde_eq
  have hpte := p.pte_eq
  have hbelow : ∀ a, a < p.pte → X86Paging.modify m (p.pte + 8 * i) f a = m a := fun a ha =>
    Function.update_of_ne (by omega) _ _
  constructor
  · exact h.pml4.congr fun j hj => hbelow _ (by omega)
  · exact h.pdpe.congr fun j hj => hbelow _ (by
      simp only [cMAX_MEMORY_SIZE] at hj
      omega)
  · exact h.pde.congr fun j hj => hbelow _ (by
      simp only [pdeEntries, cMAX_MEMORY_SIZE] at hj
      omega)
  · intro j hj
    rcases eq_or_ne j i with rfl | hne
    · rw [X86Paging.modify, Function.update_self, hpresent]
      exact h.present j hj
    · rw [X86Paging.modify, Function.update_of_ne (by omega)]
      exact h.present j hj
  · intro j hj
    rcases eq_or_ne j i with rfl | hne
    · rw [X86Paging.modify, Function.update_self]
      exact (Function.update_self j _ t.pte).symm
    · rw [X86Paging.modify, Function.update_of_ne (by omega), h.pte j hj]
      exact (Function.update_of_ne hne _ t.pte).symm

theorem modify_modify {f g : BitVec 64 → BitVec 64} :
    X86Paging.modify (X86Paging.modify m a f) a g = X86Paging.modify m a fun x => g (f x) := by
  rw [X86Paging.modify, X86Paging.modify, Function.update_self, Function.update_idem]
  rfl

/-- Mapping a page changes the table of the last level as the model of that level alone says. -/
theorem Tables.map {virtualPage physicalPage : Nat} {cacheable : Bool} (h : Tables p m t)
    (hv : virtualPage < cMAX_MEMORY_SIZE * 2 ^ 30) :
    Tables p (mapVirtualPageToPhysicalAddress p m virtualPage physicalPage cacheable)
      (X86MMU.mapVirtualPageToPhysicalAddress t virtualPage physicalPage cacheable) := by
  have hmap := h.modify (i := virtualPage / X86MMU.cPAGESIZE)
    (f := fun x => setCacheable cacheable (BitField.set 12
      (BitVec.ofNat 40 ((physicalPage &&& 0xFFFFFFFFFF000) >>> 12)) x)) fun _ => present_map
  rw [pteEntry_map] at hmap
  rw [mapVirtualPageToPhysicalAddress, modify_modify, h.getPTEEntryFromAddress_eq hv,
    X86MMU.mapVirtualPageToPhysicalAddress, X86MMU.getPTEEntryFromAddress_eq hv]
  exact hmap

/-- What the last level alone says of an address. -/
theorem Tables.physicalPageBaseAddress_eq (h : Tables p m t)
    (ha : a < cMAX_MEMORY_SIZE * 2 ^ 30) :
    physicalPageBaseAddress (m (getPTEEntryFromAddress p m a)) =
      (t.pte (a / X86MMU.cPAGESIZE)).physicalPageBaseAddress := by
  rw [h.getPTEEntryFromAddress_eq ha, ← h.pte _ (page_lt ha)]
  rfl

theorem Tables.getPhysicalAddressForVirtual_eq (h : Tables p m t)
    (ha : a < cMAX_MEMORY_SIZE * 2 ^ 30) :
    getPhysicalAddressForVirtual p m a = X86MMU.getPhysicalAddressForVirtual t a := by
  rw [getPhysicalAddressForVirtual, h.physicalPageBaseAddress_eq ha,
    X86MMU.getPhysicalAddressForVirtual, X86MMU.getPTEEntryFromAddress_eq ha]

end X86Paging

end CyPhOS
