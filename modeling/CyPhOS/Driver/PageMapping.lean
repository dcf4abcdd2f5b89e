import CyPhOS.ARMv7.ARMMMU
import CyPhOS.X86.X86MMU

/-! # What the page tables map

After `fillLinear` both ports map every page to itself, and after any calls of
`mapVirtualPageToPhysicalAddress` every page to the frame of the last call for it
(`identity_paging`). What the calls do to the last level is the same for every driver
(`GenericMMU.frame_mapAll`); the walks through memory come from `Tables`.

The second result is about the functions that translate an address. `virtualToPhysical` of the x86
port cuts the offset in the page down to nine bits.
-/

namespace CyPhOS

/-- The arguments of a call of `mapVirtualPageToPhysicalAddress`. -/
structure MapCall where
  virtualPage : Nat
  physicalPage : Nat
  cacheable : Bool

namespace GenericMMU

variable {τ : Type*} (mmu : GenericMMU τ) {t : τ} {calls : List MapCall} {a : Nat}

def mapAll (t : τ) (calls : List MapCall) : τ :=
  calls.foldl (fun t call =>
    mmu.mapVirtualPageToPhysicalAddress t call.virtualPage call.physicalPage call.cacheable) t

/-- The frame of the last call for a page, or the page itself if there was none. -/
def mappedTo (calls : List MapCall) (page : Nat) : Nat :=
  match (calls.filter fun call => call.virtualPage / mmu.getPageSize = page).getLast? with
  | some call => call.physicalPage / mmu.getPageSize
  | none => page

/-- Calls about addresses that the table covers and frames that an entry can hold. -/
def Mappable (calls : List MapCall) : Prop :=
  ∀ call ∈ calls, mmu.IsVirtual call.virtualPage ∧ mmu.IsPhysical call.physicalPage

variable {mmu}

theorem mappedTo_snoc {call : MapCall} {page : Nat} :
    mmu.mappedTo (calls ++ [call]) page =
      if page = call.virtualPage / mmu.getPageSize then call.physicalPage / mmu.getPageSize
      else mmu.mappedTo calls page := by
  rcases eq_or_ne page (call.virtualPage / mmu.getPageSize) with rfl | hne
  · simp [mappedTo]
  · simp [mappedTo, hne, hne.symm]

theorem frame_mapAll (hcalls : mmu.Mappable calls) (ha : mmu.IsVirtual a) :
    mmu.frame (mmu.mapAll mmu.fillLinear calls) (mmu.page a) =
      mmu.mappedTo calls (mmu.page a) := by
  induction calls using List.reverseRecOn with
  | nil => exact mmu.frame_fillLinear ha
  | append_singleton calls call ih =>
    obtain ⟨hv, hp⟩ := hcalls call (by simp)
    have hbefore := ih fun c hc => hcalls c (List.mem_append_left _ hc)
    rw [mapAll, List.foldl_append]
    refine (mmu.frame_map hv ha hp).trans ?_
    rw [mappedTo_snoc]
    exact if_congr Iff.rfl rfl hbefore

end GenericMMU

/-! ## x86 -/

namespace X86Paging

variable {p : Placement} {m : Memory} {t : X86MMU.X86Pagetable} {calls : List MapCall} {a : Nat}

/-- The entry is present and its frame is the one given. -/
def MapsTo (entry : BitVec 64) (frame : Nat) : Prop :=
  present entry = true ∧ (physicalPageBaseAddress entry).toNat = frame

def mapAll (p : Placement) (m : Memory) (calls : List MapCall) : Memory :=
  calls.foldl (fun m call => mapVirtualPageToPhysicalAddress p m call.virtualPage
    call.physicalPage call.cacheable) m

theorem Tables.mapAll (h : Tables p m t)
    (hcalls : ∀ call ∈ calls, x86MMU.IsVirtual call.virtualPage) :
    Tables p (X86Paging.mapAll p m calls) (x86MMU.mapAll t calls) := by
  induction calls generalizing m t with
  | nil => exact h
  | cons call calls ih =>
    exact ih (h.map (hcalls call (by simp))) fun c hc => hcalls c (List.mem_cons_of_mem _ hc)

theorem Tables.mapsTo (h : Tables p m t) (ha : x86MMU.IsVirtual a) :
    MapsTo (m (getPTEEntryFromAddress p m a)) (x86MMU.frame t (x86MMU.page a)) := by
  refine ⟨?_, congrArg BitVec.toNat (h.physicalPageBaseAddress_eq ha)⟩
  rw [h.getPTEEntryFromAddress_eq ha]
  exact h.present _ (page_lt ha)

theorem Tables.virtualToPhysical_eq (h : Tables p m t) (ha : x86MMU.IsVirtual a) :
    virtualToPhysical p m a = x86MMU.frame t (x86MMU.page a) * 0x1000 + a % 0x200 := by
  have hmask : a &&& 0x1FF = a % 2 ^ 9 := Nat.and_two_pow_sub_one_eq_mod a 9
  have hlt : a % 2 ^ 9 < 2 ^ 12 := by omega
  rw [virtualToPhysical, h.physicalPageBaseAddress_eq ha, hmask,
    ← Nat.shiftLeft_add_eq_or_of_lt hlt, Nat.shiftLeft_eq]
  rfl

theorem Tables.getPhysicalAddressForVirtual_page (h : Tables p m t) (ha : x86MMU.IsVirtual a) :
    getPhysicalAddressForVirtual p m (x86MMU.page a * 0x1000) =
      x86MMU.frame t (x86MMU.page a) * 0x1000 := by
  have hpage : x86MMU.IsVirtual (x86MMU.page a * 0x1000) :=
    Nat.lt_of_le_of_lt (Nat.div_mul_le_self a 0x1000) ha
  have hsame : x86MMU.page a * 0x1000 / X86MMU.cPAGESIZE = x86MMU.page a :=
    Nat.mul_div_cancel _ (by decide)
  rw [getPhysicalAddressForVirtual, h.physicalPageBaseAddress_eq hpage, hsame, Nat.shiftLeft_eq]
  rfl

end X86Paging

/-! ## ARMv7 -/

namespace ARMPaging

variable {p : Placement} {m : Memory} {t : ARMMMU.ARMv7PageTable} {calls : List MapCall} {a : Nat}

/-- The descriptor is one of a small page and its frame is the one given. -/
def MapsTo (entry : BitVec 32) (frame : Nat) : Prop :=
  present entry = true ∧ (smallPageBaseAddress entry).toNat = frame

def mapAll (p : Placement) (m : Memory) (calls : List MapCall) : Memory :=
  calls.foldl (fun m call => mapVirtualPageToPhysicalAddress p m call.virtualPage
    call.physicalPage call.cacheable) m

theorem Tables.mapAll (h : Tables p m t)
    (hcalls : ∀ call ∈ calls, armMMU.IsVirtual call.virtualPage) :
    Tables p (ARMPaging.mapAll p m calls) (armMMU.mapAll t calls) := by
  induction calls generalizing m t with
  | nil => exact h
  | cons call calls ih =>
    exact ih (h.map (hcalls call (by simp))) fun c hc => hcalls c (List.mem_cons_of_mem _ hc)

theorem Tables.mapsTo (h : Tables p m t) (ha : armMMU.IsVirtual a) :
    MapsTo (m (getSecondLevelPageTableEntryFromAddress p m a))
      (armMMU.frame t (armMMU.page a)) := by
  refine ⟨?_, congrArg BitVec.toNat (h.smallPageBaseAddress_eq ha)⟩
  rw [h.getSecondLevelPageTableEntryFromAddress_eq ha]
  exact h.present _ (page_lt ha)

theorem Tables.getPhysicalAddressForVirtual_offset (h : Tables p m t) (ha : armMMU.IsVirtual a) :
    getPhysicalAddressForVirtual p m a =
      getPhysicalAddressForVirtual p m (armMMU.page a * 0x1000) + a % 0x1000 := by
  have hpage : armMMU.IsVirtual (armMMU.page a * 0x1000) :=
    Nat.lt_of_le_of_lt (Nat.div_mul_le_self a 0x1000) ha
  have hsame : armMMU.page a * 0x1000 / ARMMMU.cPAGE_SIZE = a / ARMMMU.cPAGE_SIZE :=
    Nat.mul_div_cancel _ (by decide)
  have hoffset : armMMU.page a * 0x1000 % ARMMMU.cPAGE_SIZE = 0 := Nat.mul_mod_left _ _
  rw [h.getPhysicalAddressForVirtual_eq ha, h.getPhysicalAddressForVirtual_eq hpage,
    ARMMMU.getPhysicalAddressForVirtual_eq, ARMMMU.getPhysicalAddressForVirtual_eq, hsame, hoffset,
    Nat.add_zero, ARMMMU.cPAGE_SIZE]

end ARMPaging

/-! ## Both ports -/

/-- Wherever the tables lie and whatever was in memory: `fillLinear` maps every page to itself, each
page has an entry of its own, and afterwards every page is mapped to the frame of the last call for
it. -/
theorem identity_paging :
    (∀ (p : X86Paging.Placement) (m : X86Paging.Memory) (calls : List MapCall),
      let m₀ := X86Paging.fillLinear p m
      let m' := X86Paging.mapAll p m₀ calls
      (∀ a, x86MMU.IsVirtual a → X86Paging.MapsTo
        (m₀ (X86Paging.getPTEEntryFromAddress p m₀ a)) (x86MMU.page a)) ∧
      (∀ a b, x86MMU.IsVirtual a → x86MMU.IsVirtual b →
        (X86Paging.getPTEEntryFromAddress p m₀ a = X86Paging.getPTEEntryFromAddress p m₀ b ↔
          x86MMU.page a = x86MMU.page b)) ∧
      (x86MMU.Mappable calls → ∀ a, x86MMU.IsVirtual a → X86Paging.MapsTo
        (m' (X86Paging.getPTEEntryFromAddress p m' a)) (x86MMU.mappedTo calls (x86MMU.page a)))) ∧
    ∀ (p : ARMPaging.Placement) (m : ARMPaging.Memory) (calls : List MapCall),
      let m₀ := ARMPaging.fillLinear p m
      let m' := ARMPaging.mapAll p m₀ calls
      (∀ a, armMMU.IsVirtual a → ARMPaging.MapsTo
        (m₀ (ARMPaging.getSecondLevelPageTableEntryFromAddress p m₀ a)) (armMMU.page a)) ∧
      (∀ a b, armMMU.IsVirtual a → armMMU.IsVirtual b →
        (ARMPaging.getSecondLevelPageTableEntryFromAddress p m₀ a =
          ARMPaging.getSecondLevelPageTableEntryFromAddress p m₀ b ↔
            armMMU.page a = armMMU.page b)) ∧
      (armMMU.Mappable calls → ∀ a, armMMU.IsVirtual a → ARMPaging.MapsTo
        (m' (ARMPaging.getSecondLevelPageTableEntryFromAddress p m' a))
        (armMMU.mappedTo calls (armMMU.page a))) := by
  constructor
  · intro p m calls
    have htables := X86Paging.fillLinear_tables p m
    refine ⟨fun a ha => ?_, fun a b ha hb => htables.getPTEEntryFromAddress_inj ha hb,
      fun hcalls a ha => ?_⟩
    · have hmaps := htables.mapsTo ha
      rwa [show x86MMU.frame X86MMU.fillLinear (x86MMU.page a) = x86MMU.page a from
        x86MMU.frame_fillLinear ha] at hmaps
    · have hmaps := (htables.mapAll fun call hcall => (hcalls call hcall).1).mapsTo ha
      rwa [show x86MMU.frame (x86MMU.mapAll X86MMU.fillLinear calls) (x86MMU.page a) = _ from
        GenericMMU.frame_mapAll hcalls ha] at hmaps
  · intro p m calls
    have htables := ARMPaging.fillLinear_tables p m
    refine ⟨fun a ha => ?_,
      fun a b ha hb => htables.getSecondLevelPageTableEntryFromAddress_inj ha hb,
      fun hcalls a ha => ?_⟩
    · have hmaps := htables.mapsTo ha
      rwa [show armMMU.frame ARMMMU.fillLinear (armMMU.page a) = armMMU.page a from
        armMMU.frame_fillLinear ha] at hmaps
    · have hmaps := (htables.mapAll fun call hcall => (hcalls call hcall).1).mapsTo ha
      rwa [show armMMU.frame (armMMU.mapAll ARMMMU.fillLinear calls) (armMMU.page a) = _ from
        GenericMMU.frame_mapAll hcalls ha] at hmaps

/-- Tables behind the first megabyte. -/
def x86Placement : X86Paging.Placement where
  pml4 := 0x100000
  aligned := by decide
  bound := by decide

def armPlacement : ARMPaging.Placement where
  firstLevelTable := 0x100000
  aligned := by decide
  bound := by decide

/-- The sixth page is moved twice and another one in between. -/
def threeCalls : List MapCall :=
  [{ virtualPage := 0x5000, physicalPage := 0x9000, cacheable := true },
   { virtualPage := 0x80000000, physicalPage := 0x5000, cacheable := false },
   { virtualPage := 0x5000, physicalPage := 0x7000, cacheable := true }]

theorem identity_paging_threeCalls :
    (let m := X86Paging.mapAll x86Placement (X86Paging.fillLinear x86Placement fun _ => 0)
      threeCalls
    X86Paging.MapsTo (m (X86Paging.getPTEEntryFromAddress x86Placement m 0x5123)) 0x7) ∧
    let m := ARMPaging.mapAll armPlacement (ARMPaging.fillLinear armPlacement fun _ => 0) threeCalls
    ARMPaging.MapsTo
      (m (ARMPaging.getSecondLevelPageTableEntryFromAddress armPlacement m 0xFFFFF000)) 0xFFFFF := by
  have hx86 : x86MMU.Mappable threeCalls := by
    simp only [GenericMMU.Mappable, threeCalls, List.forall_mem_cons]
    decide
  have harm : armMMU.Mappable threeCalls := by
    simp only [GenericMMU.Mappable, threeCalls, List.forall_mem_cons]
    decide
  have hlast : x86MMU.mappedTo threeCalls (x86MMU.page 0x5123) = 0x7 := by decide
  have hnone : armMMU.mappedTo threeCalls (armMMU.page 0xFFFFF000) = 0xFFFFF := by decide
  rw [← hlast, ← hnone]
  exact ⟨(identity_paging.1 x86Placement (fun _ => 0) threeCalls).2.2 hx86 0x5123 (by decide),
    (identity_paging.2 armPlacement (fun _ => 0) threeCalls).2.2 harm 0xFFFFF000 (by decide)⟩

/-- After any calls of `mapVirtualPageToPhysicalAddress`, `virtualToPhysical` of the x86 port keeps
the offset in the page exactly if that is below `0x200`. On ARMv7 the offset is always kept. -/
theorem virtualToPhysical_keepsOffset_iff (calls : List MapCall) :
    (∀ (p : X86Paging.Placement) (m : X86Paging.Memory),
      (∀ call ∈ calls, x86MMU.IsVirtual call.virtualPage) →
      let m' := X86Paging.mapAll p (X86Paging.fillLinear p m) calls
      ∀ a, x86MMU.IsVirtual a →
        (X86Paging.virtualToPhysical p m' a =
            X86Paging.getPhysicalAddressForVirtual p m' (x86MMU.page a * 0x1000) + a % 0x1000 ↔
          a % 0x1000 < 0x200)) ∧
    ∀ (p : ARMPaging.Placement) (m : ARMPaging.Memory),
      (∀ call ∈ calls, armMMU.IsVirtual call.virtualPage) →
      let m' := ARMPaging.mapAll p (ARMPaging.fillLinear p m) calls
      ∀ a, armMMU.IsVirtual a →
        ARMPaging.getPhysicalAddressForVirtual p m' a =
          ARMPaging.getPhysicalAddressForVirtual p m' (armMMU.page a * 0x1000) + a % 0x1000 := by
  constructor
  · intro p m hcalls m' a ha
    have htables := (X86Paging.fillLinear_tables p m).mapAll hcalls
    rw [htables.virtualToPhysical_eq ha, htables.getPhysicalAddressForVirtual_page ha]
    omega
  · intro p m hcalls m' a ha
    exact ((ARMPaging.fillLinear_tables p m).mapAll hcalls).getPhysicalAddressForVirtual_offset ha

theorem virtualToPhysical_keepsOffset_iff_threeCalls :
    (let m := X86Paging.mapAll x86Placement (X86Paging.fillLinear x86Placement fun _ => 0)
      threeCalls
    X86Paging.virtualToPhysical x86Placement m 0x5123 =
      X86Paging.getPhysicalAddressForVirtual x86Placement m (x86MMU.page 0x5123 * 0x1000) +
        0x5123 % 0x1000) ∧
    let m := ARMPaging.mapAll armPlacement (ARMPaging.fillLinear armPlacement fun _ => 0) threeCalls
    ARMPaging.getPhysicalAddressForVirtual armPlacement m 0x5FFF =
      ARMPaging.getPhysicalAddressForVirtual armPlacement m (armMMU.page 0x5FFF * 0x1000) +
        0x5FFF % 0x1000 := by
  have hx86 : ∀ call ∈ threeCalls, x86MMU.IsVirtual call.virtualPage := by
    simp only [threeCalls, List.forall_mem_cons]
    decide
  have harm : ∀ call ∈ threeCalls, armMMU.IsVirtual call.virtualPage := by
    simp only [threeCalls, List.forall_mem_cons]
    decide
  have hoffset : 0x5123 % 0x1000 < 0x200 := by decide
  exact ⟨((virtualToPhysical_keepsOffset_iff threeCalls).1 x86Placement (fun _ => 0) hx86 0x5123
      (by decide)).mpr hoffset,
    (virtualToPhysical_keepsOffset_iff threeCalls).2 armPlacement (fun _ => 0) harm 0x5FFF
      (by decide)⟩

/-- The address `0x200`, identically mapped, is said to lie at the physical address 0. -/
theorem virtualToPhysical_drops_offset :
    ¬ ∀ (p : X86Paging.Placement) (m : X86Paging.Memory) (a : Nat), x86MMU.IsVirtual a →
      X86Paging.virtualToPhysical p (X86Paging.fillLinear p m) a =
        X86Paging.getPhysicalAddressForVirtual p (X86Paging.fillLinear p m)
          (x86MMU.page a * 0x1000) + a % 0x1000 := by
  intro h
  have heq := h x86Placement (fun _ => 0) 0x200 (by decide)
  have htables := X86Paging.fillLinear_tables x86Placement fun _ => 0
  rw [htables.virtualToPhysical_eq (by decide),
    htables.getPhysicalAddressForVirtual_page (by decide)] at heq
  omega

end CyPhOS
