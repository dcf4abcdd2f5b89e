import CyPhOS.Lib.PagedMemory
import Mathlib.Logic.Function.Basic

/-! # Moving pages between frames

`GenericMMU` is the abstract driver: the operations a port overrides, and what the table they work
on means to the hardware. The two ports, `x86MMU` and `armMMU`, differ in the layout of an entry
and in `getPhysicalAddressForVirtual`, which drops the offset on the one and keeps it on the other.

The page table is kept apart from the memory it maps, so the frames that hold it are no target of
a move. Every write to it is followed by a flush of the TLB, so that the hardware translates
through the table as it stands.

`moveVirtualPageToPhysicalAddress` copies a page to a frame and maps the page there. The copy goes
through virtual addresses, and the frame may be reachable only through the dummy page of the CPU.
`move_frame` and `move_memory` say what the move does to the table and to the memory.
-/

namespace CyPhOS

open PagedMemory

/-- The MMU driver of a port, over tables of type `τ`. `frame` and `cacheable` are what the
hardware finds in a table for a page; `IsVirtual` and `IsPhysical` are the addresses that the
table covers and those that an entry can hold. The system starts with the table `fillLinear`. -/
structure GenericMMU (τ : Type*) where
  fillLinear : τ
  getPageSize : Nat
  getDummyPageAddress : UInt8 → Nat
  getPhysicalAddressForVirtual : τ → Nat → Nat
  mapVirtualPageToPhysicalAddress : τ → Nat → Nat → Bool → τ
  frame : τ → Nat → Nat
  cacheable : τ → Nat → Bool
  IsVirtual : Nat → Prop
  IsPhysical : Nat → Prop
  pageSize_pos : 0 < getPageSize
  dvd_pageSize : 8 ∣ getPageSize
  frame_fillLinear {a} : IsVirtual a → frame fillLinear (a / getPageSize) = a / getPageSize
  frame_map {t v p c a} : IsVirtual v → IsVirtual a → IsPhysical p →
    frame (mapVirtualPageToPhysicalAddress t v p c) (a / getPageSize) =
      if a / getPageSize = v / getPageSize then p / getPageSize else frame t (a / getPageSize)
  cacheable_map {t v p c a} : IsVirtual v → IsVirtual a →
    cacheable (mapVirtualPageToPhysicalAddress t v p c) (a / getPageSize) =
      if a / getPageSize = v / getPageSize then c else cacheable t (a / getPageSize)
  get_div {t a} : IsVirtual a →
    getPhysicalAddressForVirtual t a / getPageSize = frame t (a / getPageSize)
  dvd_get {t a} : getPageSize ∣ a → getPageSize ∣ getPhysicalAddressForVirtual t a
  isPhysical_get {t a} : IsPhysical (getPhysicalAddressForVirtual t a)
  isVirtual_dummy {cpu} : IsVirtual (getDummyPageAddress cpu)
  isPhysical_dummy {cpu} : IsPhysical (getDummyPageAddress cpu)
  dvd_dummy {cpu} : getPageSize ∣ getDummyPageAddress cpu

namespace GenericMMU

/-- The page table and the physical memory. -/
structure State (τ : Type*) where
  pageTable : τ
  memory : Nat → UInt8

variable {τ : Type*} (mmu : GenericMMU τ)

/-- The physical address of a virtual one. -/
def physical (t : τ) : Nat → Nat := translate mmu.getPageSize (mmu.frame t)

/-- The byte a program reads at a virtual address. -/
def read (s : State τ) (a : Nat) : UInt8 := s.memory (mmu.physical s.pageTable a)

def map (s : State τ) (virtualPage physicalPage : Nat) (cacheable : Bool) : State τ :=
  { s with
    pageTable :=
      mmu.mapVirtualPageToPhysicalAddress s.pageTable virtualPage physicalPage cacheable }

/-- The loop `for (i = 0; i < pageSize; i += 8)` over 64 bit words. -/
def copyPage (s : State τ) (destination source : Nat) : State τ :=
  { s with
    memory := copyWords 8 (mmu.physical s.pageTable) ((mmu.getPageSize + 7) / 8) destination
      source s.memory }

/-- The target is reached under its own address if it is mapped there, else through the dummy page
of the CPU, which is returned afterwards. -/
def moveVirtualPageToPhysicalAddress (cpu : UInt8) (s : State τ) (virtualPage physicalPage : Nat)
    (cacheable : Bool) : State τ :=
  let dummyPageAddress := mmu.getDummyPageAddress cpu
  let originalPhysicalAddress := mmu.getPhysicalAddressForVirtual s.pageTable virtualPage
  let s := mmu.map s virtualPage originalPhysicalAddress !cacheable
  let dummyPage := mmu.getPhysicalAddressForVirtual s.pageTable physicalPage != physicalPage
  let destination := if dummyPage then dummyPageAddress else physicalPage
  let s := if dummyPage then mmu.map s dummyPageAddress physicalPage cacheable
    else mmu.map s physicalPage physicalPage cacheable
  let s := mmu.copyPage s destination virtualPage
  let s := mmu.map s virtualPage physicalPage cacheable
  if dummyPage then mmu.map s dummyPageAddress dummyPageAddress false else s

/-- The number of the page or frame of an address. -/
abbrev page (a : Nat) : Nat := a / mmu.getPageSize

/-- The page of an address is mapped to the frame of the same number. -/
def IsIdentity (t : τ) (a : Nat) : Prop := mmu.frame t (mmu.page a) = mmu.page a

instance (t : τ) (a : Nat) : Decidable (mmu.IsIdentity t a) := inferInstanceAs (Decidable (_ = _))

variable {mmu} {cpu : UInt8} {s : State τ} {v p : Nat} {c : Bool}

@[simp] theorem map_memory : (mmu.map s v p c).memory = s.memory := rfl

@[simp] theorem copyPage_pageTable {destination source : Nat} :
    (mmu.copyPage s destination source).pageTable = s.pageTable := rfl

theorem map_frame {a : Nat} (hv : mmu.IsVirtual v) (ha : mmu.IsVirtual a)
    (hp : mmu.IsPhysical p) :
    mmu.frame (mmu.map s v p c).pageTable (mmu.page a) =
      if mmu.page a = mmu.page v then mmu.page p
      else mmu.frame s.pageTable (mmu.page a) :=
  mmu.frame_map hv ha hp

theorem map_cacheable {a : Nat} (hv : mmu.IsVirtual v) (ha : mmu.IsVirtual a) :
    mmu.cacheable (mmu.map s v p c).pageTable (mmu.page a) =
      if mmu.page a = mmu.page v then c
      else mmu.cacheable s.pageTable (mmu.page a) :=
  mmu.cacheable_map hv ha

theorem page_get {t : τ} {a : Nat} (ha : mmu.IsVirtual a) :
    mmu.page (mmu.getPhysicalAddressForVirtual t a) = mmu.frame t (mmu.page a) :=
  mmu.get_div ha

/-- The bytes of a page are read in its frame. -/
theorem read_page {a o : Nat} (ha : mmu.getPageSize ∣ a) (ho : o < mmu.getPageSize) :
    mmu.read s (a + o) = s.memory (mmu.frame s.pageTable (mmu.page a) * mmu.getPageSize + o) := by
  rw [read, physical, translate_page mmu.pageSize_pos ha ho]

theorem copyPage_words : 8 * ((mmu.getPageSize + 7) / 8) = mmu.getPageSize := by
  have := mmu.dvd_pageSize
  omega

/-! ## What a move does -/

/-- What a move finds and is given: addresses of the machine, and a dummy page that is free for
use and none of the pages moved. -/
structure Movable (mmu : GenericMMU τ) (cpu : UInt8) (t : τ) (v p : Nat) :
    Prop where
  virtual : mmu.IsVirtual v
  target_virtual : mmu.IsVirtual p
  target_physical : mmu.IsPhysical p
  not_dummy : mmu.page v ≠ mmu.page (mmu.getDummyPageAddress cpu)
  dummy : mmu.IsIdentity t (mmu.getDummyPageAddress cpu)

/-- What a move from `s` to `s'` promises: the page reads as before, from the target frame. -/
structure Moved (mmu : GenericMMU τ) (s s' : State τ) (v p : Nat) (c : Bool) : Prop where
  content : ∀ o < mmu.getPageSize, mmu.read s' (v + o) = mmu.read s (v + o)
  frame_eq : mmu.frame s'.pageTable (mmu.page v) = mmu.page p
  cacheable_eq : mmu.cacheable s'.pageTable (mmu.page v) = c
  frame_of_ne : ∀ a, mmu.IsVirtual a → mmu.page a ≠ mmu.page v →
    mmu.frame s'.pageTable (mmu.page a) = mmu.frame s.pageTable (mmu.page a)
  memory_of_ne : ∀ x, mmu.page x ≠ mmu.page p → s'.memory x = s.memory x

section
variable (mmu cpu s v p c)

/-- Whether a move finds its target mapped elsewhere than to its own address. -/
def usesDummy : Bool :=
  mmu.getPhysicalAddressForVirtual (mmu.map s v
    (mmu.getPhysicalAddressForVirtual s.pageTable v) !c).pageTable
      p != p

/-- The address through which a move writes. -/
def destination : Nat :=
  if mmu.usesDummy s v p c then mmu.getDummyPageAddress cpu
  else p

/-- The state in which a move copies. -/
def copying : State τ :=
  mmu.map (mmu.map s v (mmu.getPhysicalAddressForVirtual s.pageTable v)
    !c) (mmu.destination cpu s v p c) p c

end

theorem move_eq :
    mmu.moveVirtualPageToPhysicalAddress cpu s v p c =
      let s' := mmu.map (mmu.copyPage (mmu.copying cpu s v p c)
        (mmu.destination cpu s v p c) v) v
          p c
      if mmu.usesDummy s v p c then
        mmu.map s' (mmu.getDummyPageAddress cpu) (mmu.getDummyPageAddress cpu) false
      else s' := by
  unfold moveVirtualPageToPhysicalAddress copying destination
  cases h : mmu.usesDummy s v p c <;>
    simp only [usesDummy] at h <;> simp [h]

section
variable (h : Movable mmu cpu s.pageTable v p)
include h

/-- The first step only changes the cacheability. -/
theorem frame_uncached {a : Nat} (ha : mmu.IsVirtual a) :
    mmu.frame (mmu.map s v (mmu.getPhysicalAddressForVirtual s.pageTable v)
      !c).pageTable (mmu.page a) = mmu.frame s.pageTable (mmu.page a) := by
  rw [map_frame h.virtual ha mmu.isPhysical_get, page_get h.virtual]
  split
  · next hpage => rw [hpage]
  · rfl

theorem isIdentity_of_not_usesDummy
    (hdummy : mmu.usesDummy s v p c = false) :
    mmu.IsIdentity s.pageTable p := by
  rw [usesDummy, bne_eq_false_iff_eq] at hdummy
  rw [IsIdentity, ← frame_uncached h h.target_virtual, ← page_get h.target_virtual, hdummy]

theorem isVirtual_destination :
    mmu.IsVirtual (mmu.destination cpu s v p c) := by
  unfold destination
  split
  · exact mmu.isVirtual_dummy
  · exact h.target_virtual

/-- A move writes through the start of a page, unless an unaligned target is mapped to itself. -/
theorem dvd_destination
    (hp : mmu.getPageSize ∣ p ∨ ¬ mmu.IsIdentity s.pageTable p) :
    mmu.getPageSize ∣ mmu.destination cpu s v p c := by
  unfold destination
  cases hdummy : mmu.usesDummy s v p c with
  | true => exact mmu.dvd_dummy
  | false => exact hp.resolve_right (not_not_intro (isIdentity_of_not_usesDummy h hdummy))

/-- While a move copies, the table is the one it found but for the page it writes through. -/
theorem frame_copying {a : Nat} (ha : mmu.IsVirtual a) :
    mmu.frame (mmu.copying cpu s v p c).pageTable
        (mmu.page a) =
      if mmu.page a = mmu.page (mmu.destination cpu s v p c) then
        mmu.page p
      else mmu.frame s.pageTable (mmu.page a) := by
  rw [copying, map_frame (isVirtual_destination h) ha h.target_physical, frame_uncached h ha]

/-- The source page is read where the move found it. -/
theorem frame_copying_source :
    mmu.frame (mmu.copying cpu s v p c).pageTable
      (mmu.page v) = mmu.frame s.pageTable (mmu.page v) := by
  rw [frame_copying h h.virtual]
  split
  · next hpage =>
    unfold destination at hpage
    cases hdummy : mmu.usesDummy s v p c with
    | true => rw [hdummy] at hpage; exact absurd hpage h.not_dummy
    | false =>
      -- the page lies in the target frame already
      rw [hdummy, if_neg Bool.false_ne_true] at hpage
      rw [hpage]
      exact (isIdentity_of_not_usesDummy h hdummy).symm
  · rfl

theorem frame_copying_destination :
    mmu.frame (mmu.copying cpu s v p c).pageTable
      (mmu.page (mmu.destination cpu s v p c)) =
        mmu.page p := by
  rw [frame_copying h (isVirtual_destination h), if_pos rfl]

/-- A move maps the page to the target and leaves every other page where it is. -/
theorem move_frame {a : Nat} (ha : mmu.IsVirtual a) :
    mmu.frame (mmu.moveVirtualPageToPhysicalAddress cpu s v p c).pageTable (mmu.page a) =
      if mmu.page a = mmu.page v then mmu.page p else mmu.frame s.pageTable (mmu.page a) := by
  have hmoved : ∀ {x}, mmu.frame (mmu.map (mmu.copyPage (mmu.copying cpu s v p c) x v) v p
      c).pageTable (mmu.page a) = if mmu.page a = mmu.page v then mmu.page p
        else if mmu.page a = mmu.page (mmu.destination cpu s v p c) then mmu.page p
        else mmu.frame s.pageTable (mmu.page a) := by
    intro x
    rw [map_frame h.virtual ha h.target_physical, copyPage_pageTable, frame_copying h ha]
  rw [move_eq]
  cases hdummy : mmu.usesDummy s v p c with
  | true =>
    -- the dummy page is mapped back
    rw [if_pos rfl, map_frame mmu.isVirtual_dummy ha mmu.isPhysical_dummy, hmoved, destination,
      hdummy, if_pos rfl]
    have hid := h.dummy
    have hne := h.not_dummy
    grind [IsIdentity]
  | false =>
    rw [if_neg Bool.false_ne_true, hmoved, destination, hdummy, if_neg Bool.false_ne_true]
    have hid := isIdentity_of_not_usesDummy h hdummy
    grind [IsIdentity]

theorem move_cacheable :
    mmu.cacheable (mmu.moveVirtualPageToPhysicalAddress cpu s v p c).pageTable (mmu.page v) =
      c := by
  rw [move_eq]
  cases hdummy : mmu.usesDummy s v p c with
  | true =>
    rw [if_pos rfl, map_cacheable mmu.isVirtual_dummy h.virtual, if_neg h.not_dummy,
      map_cacheable h.virtual h.virtual, if_pos rfl]
  | false => rw [if_neg Bool.false_ne_true, map_cacheable h.virtual h.virtual, if_pos rfl]

end

theorem move_memory_eq :
    (mmu.moveVirtualPageToPhysicalAddress cpu s v p c).memory =
      copyWords 8 (mmu.physical (mmu.copying cpu s v p c).pageTable)
        ((mmu.getPageSize + 7) / 8) (mmu.destination cpu s v p c) v s.memory := by
  rw [move_eq]
  cases mmu.usesDummy s v p c <;> rfl

section
variable (h : Movable mmu cpu s.pageTable v p)
include h

/-- A move of an aligned page replaces the content of the target frame by that of the page. -/
theorem move_memory (hv : mmu.getPageSize ∣ v) (hp : mmu.getPageSize ∣ p) (x : Nat) :
    (mmu.moveVirtualPageToPhysicalAddress cpu s v p c).memory x =
      if mmu.page x = mmu.page p then
        s.memory (mmu.frame s.pageTable (mmu.page v) * mmu.getPageSize + x % mmu.getPageSize)
      else s.memory x := by
  rw [move_memory_eq, physical, copyPage_apply mmu.pageSize_pos copyPage_words hv
    (dvd_destination h (.inl hp)), frame_copying_destination h, frame_copying_source h]

theorem move_moved (hv : mmu.getPageSize ∣ v) (hp : mmu.getPageSize ∣ p) :
    mmu.Moved s (mmu.moveVirtualPageToPhysicalAddress cpu s v p c) v p c := by
  have hpos := mmu.pageSize_pos
  have hframe : mmu.frame (mmu.moveVirtualPageToPhysicalAddress cpu s v p c).pageTable
      (mmu.page v) = mmu.page p := by rw [move_frame h h.virtual, if_pos rfl]
  refine ⟨fun o ho => ?_, hframe, move_cacheable h, fun a ha hne => ?_, fun x hx => ?_⟩
  · -- both reads go to the offset `o` of a frame, and the target frame is a copy
    rw [read_page hv ho, read_page hv ho, hframe, move_memory h hv hp, page,
      mul_add_div_eq hpos ho, if_pos rfl, mul_add_mod_eq ho]
  · rw [move_frame h ha, if_neg hne]
  · rw [move_memory h hv hp, if_neg hx]

/-- A move writes to the target frame only, also for an unaligned target. -/
theorem move_memory_of_ne (hp : mmu.getPageSize ∣ p ∨ ¬ mmu.IsIdentity s.pageTable p) {x : Nat}
    (hx : mmu.page x ≠ mmu.page p) :
    (mmu.moveVirtualPageToPhysicalAddress cpu s v p c).memory x = s.memory x := by
  rw [move_memory_eq, physical, copyWords_frame_of_page mmu.pageSize_pos copyPage_words
    (dvd_destination h hp)]
  rwa [frame_copying_destination h]

/-- The first byte of the target frame is the one at the virtual address given, which need not be
the first of its page. -/
theorem move_memory_first (hp : mmu.getPageSize ∣ p ∨ ¬ mmu.IsIdentity s.pageTable p) :
    (mmu.moveVirtualPageToPhysicalAddress cpu s v p c).memory (mmu.page p * mmu.getPageSize) =
      mmu.read s v := by
  have hframe := frame_copying_destination (c := c) h
  have hfirst : (mmu.moveVirtualPageToPhysicalAddress cpu s v p c).memory
      (mmu.page p * mmu.getPageSize) =
        s.memory (translate mmu.getPageSize (mmu.frame (mmu.copying cpu s v p c).pageTable) v) := by
    rw [move_memory_eq, physical, ← hframe]
    exact copyWords_page_first mmu.pageSize_pos copyPage_words (dvd_destination h hp)
  rw [hfirst, PagedMemory.translate, frame_copying_source h]
  rfl

end

end GenericMMU
end CyPhOS
