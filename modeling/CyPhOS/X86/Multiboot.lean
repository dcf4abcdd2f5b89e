import Mathlib.Algebra.Group.Nat.Defs
import CyPhOS.Lib.RecordWalk
import CyPhOS.X86.RootPointer

/-! # The tags of the boot loader

The loop over the tags counts down what is left of the information block, with the gaps that align
the tags. It comes to zero inside the block if the tags, up to their gaps, end exactly where the block
ends; a tag of size zero, or one that overshoots the block, keeps it running (`readInformation_iff`).
-/

namespace CyPhOS

open RecordWalk

namespace Multiboot

/-- Where the loop is, and what is left of the block. -/
structure Information where
  start : Nat
  size : BitVec 32
  deriving DecidableEq, Repr

def tagType (mem : Memory) (tag : Nat) : Nat := mem.read32 tag

def tagSize (mem : Memory) (tag : Nat) : Nat := mem.read32 (tag + 4)

/-- The type of a copy of the root pointer, of either version. -/
def isRootPointer (type : Nat) : Bool := type = 14 ∨ type = 15

/-- `ACPI::registerExternalRSDP`, with the `mRSDP` that there is. -/
def registerExternalRSDP (mem : Memory) (rsdp mRSDP : Nat) : Nat :=
  if ACPI.checkRSDPValidity mem rsdp then rsdp else mRSDP

/-- The part of the body of the loop that looks at the tag. -/
def registerTag (mem : Memory) (tag mRSDP : Nat) : Nat :=
  if isRootPointer (tagType mem tag) then registerExternalRSDP mem (tag + 8) mRSDP else mRSDP

/-- The part that goes on to the next tag. -/
def advance (mem : Memory) (information : Information) : Information :=
  let size := tagSize mem information.start
  let informationSize := information.size - .ofNat 32 size
  let informationStart := information.start + size
  let misalignment := 8 - informationStart % 8
  if misalignment ≠ 8 then
    ⟨informationStart + misalignment, informationSize - .ofNat 32 misalignment⟩
  else ⟨informationStart, informationSize⟩

/-- `while (information_size != 0)` -/
def tagLoop (mem : Memory) : Nat → Information → Nat → Exec Nat
  | fuel, information, mRSDP =>
    if information.size ≠ 0#32 then
      match fuel with
      | 0 => .error .hang
      | fuel + 1 =>
        tagLoop mem fuel (advance mem information) (registerTag mem information.start mRSDP)
    else .ok mRSDP

/-- The block at `multiboot2_information_pointer`, behind its header. -/
def firstInformation (mem : Memory) (pointer : Nat) : Information :=
  ⟨pointer + 8, .ofNat 32 (mem.read32 pointer) - 8#32⟩

def readInformation (mem : Memory) (fuel pointer mRSDP : Nat) : Exec Nat :=
  tagLoop mem fuel (firstInformation mem pointer) mRSDP

/-! ## The tags that the loop reads -/

variable {mem : Memory} {information : Information} {pointer fuel mRSDP : Nat}

/-- The place of the tag that is read next, if something is left. -/
def unread (information : Information) : Option Information :=
  if information.size ≠ 0#32 then some information else none

theorem tagLoop_eq : tagLoop mem fuel information mRSDP =
    match follow (fun i => unread (advance mem i)) fuel (unread information) with
    | some tags => .ok (tags.foldl (fun mRSDP i => registerTag mem i.start mRSDP) mRSDP)
    | none => .error .hang := by
  induction fuel generalizing information mRSDP with
  | zero =>
    rw [tagLoop, unread]
    split <;> rfl
  | succ fuel ih =>
    rw [tagLoop, unread]
    split
    · rw [follow, ih]
      cases follow (fun i => unread (advance mem i)) fuel (unread (advance mem information)) <;> rfl
    · rfl

/-- The header of a tag is in the block. -/
def HeaderInside (mem : Memory) (pointer tag : Nat) : Prop :=
  pointer ≤ tag ∧ tag + 8 ≤ pointer + mem.read32 pointer

/-- The loop ends, and has read only tags whose headers are in the block. -/
def ReadsInside (mem : Memory) (pointer : Nat) : Prop :=
  ∃ fuel tags, follow (fun i => unread (advance mem i)) fuel
      (unread (firstInformation mem pointer)) = some tags ∧
    ∀ tag ∈ tags, HeaderInside mem pointer tag.start

theorem ReadsInside.readInformation (h : ReadsInside mem pointer) (mRSDP : Nat) :
    ∃ fuel mRSDP', readInformation mem fuel pointer mRSDP = .ok mRSDP' := by
  obtain ⟨fuel, tags, hfollow, -⟩ := h
  exact ⟨fuel, _, by rw [Multiboot.readInformation, tagLoop_eq, hfollow]⟩

/-- Where the tag behind this one is, which is aligned. -/
def nextTag (mem : Memory) (tag : Nat) : Nat := (tag + tagSize mem tag + 7) / 8 * 8

/-- The tags follow one another and fill the block from `tag` on. -/
abbrev TagsFill (mem : Memory) (pointer tag : Nat) (tags : List Nat) : Prop :=
  Chain (nextTag mem) (HeaderInside mem pointer) (pointer + mem.read32 pointer) tag tags

theorem advance_start : (advance mem information).start = nextTag mem information.start := by
  rw [advance, nextTag]
  split <;> dsimp only <;> omega

/-- The place and what is left of the block change by the same amount. -/
theorem move_size {start amount : Nat} {size : BitVec 32} :
    (start + amount + (size - .ofNat 32 amount).toNat) % 2 ^ 32 = (start + size.toNat) % 2 ^ 32 := by
  simp only [BitVec.toNat_sub, BitVec.toNat_ofNat]
  omega

theorem advance_size :
    ((advance mem information).start + (advance mem information).size.toNat) % 2 ^ 32 =
      (information.start + information.size.toNat) % 2 ^ 32 := by
  rw [advance]
  split
  · exact move_size.trans move_size
  · exact move_size

theorem read32_lt (mem : Memory) (a : Nat) : mem.read32 a < 2 ^ 32 := by
  have h0 := (mem a).toNat_lt
  have h1 := (mem (a + 1)).toNat_lt
  have h2 := (mem (a + 2)).toNat_lt
  have h3 := (mem (a + 3)).toNat_lt
  rw [Memory.read32]
  omega

/-- What is left is the rest of the block, up to a multiple of `2 ^ 32` that is too far away. -/
structure Remaining (mem : Memory) (pointer : Nat) (information : Information) : Prop where
  size : (information.start + information.size.toNat) % 2 ^ 32 =
    (pointer + mem.read32 pointer) % 2 ^ 32
  notBehind : information.start < pointer + mem.read32 pointer + 2 ^ 32
  notBefore : pointer + mem.read32 pointer < information.start + 2 ^ 32

theorem Remaining.first (mem : Memory) (pointer : Nat) :
    Remaining mem pointer (firstInformation mem pointer) := by
  have hbound := read32_lt mem pointer
  refine ⟨move_size.trans ?_, ?_, ?_⟩
  · rw [BitVec.toNat_ofNat, Nat.mod_eq_of_lt hbound]
  · exact (by omega : pointer + 8 < pointer + mem.read32 pointer + 2 ^ 32)
  · exact (by omega : pointer + mem.read32 pointer < pointer + 8 + 2 ^ 32)

theorem Remaining.advance (h : Remaining mem pointer information)
    (hinside : HeaderInside mem pointer information.start) :
    Remaining mem pointer (advance mem information) := by
  have hsize := read32_lt mem (information.start + 4)
  have hstart : (Multiboot.advance mem information).start = nextTag mem information.start :=
    advance_start
  rw [nextTag, tagSize] at hstart
  obtain ⟨-, hheader⟩ := hinside
  have hbefore := h.notBefore
  refine ⟨advance_size.trans h.size, ?_, ?_⟩
  · omega
  · omega

/-- Nothing is left where the block ends, and only there. -/
theorem Remaining.size_eq_zero_iff (h : Remaining mem pointer information) :
    information.size = 0#32 ↔ information.start = pointer + mem.read32 pointer := by
  obtain ⟨hsize, hbehind, hbefore⟩ := h
  have hlt := information.size.isLt
  rw [← BitVec.toNat_inj, show (0#32).toNat = 0 from rfl]
  omega

theorem walksIn_tags (hremaining : Remaining mem pointer information) :
    WalksIn (fun i => unread (advance mem i)) (fun i => HeaderInside mem pointer i.start)
        (some information) ↔
      ∃ tags, tags ≠ [] ∧ TagsFill mem pointer information.start tags := by
  refine walksIn_iff_chain (Remaining mem pointer) Information.start ?_ ?_ hremaining
  · intro information hremaining hinside hend
    have hadvance := hremaining.advance hinside
    rw [unread, if_neg (not_not.mpr (hadvance.size_eq_zero_iff.mpr (advance_start.trans hend)))]
  · intro information hremaining hinside hmore
    have hadvance := hremaining.advance hinside
    have hleft : (advance mem information).size ≠ 0#32 := fun hzero =>
      hmore (advance_start.symm.trans (hadvance.size_eq_zero_iff.mp hzero))
    exact ⟨_, if_pos hleft, hadvance, advance_start⟩

theorem readsInside_iff :
    ReadsInside mem pointer ↔ ∃ tags, TagsFill mem pointer (pointer + 8) tags := by
  have hfirst := Remaining.first mem pointer
  have hend : (firstInformation mem pointer).size = 0#32 ↔
      pointer + 8 = pointer + mem.read32 pointer := hfirst.size_eq_zero_iff
  refine walksIn_iff_follow.symm.trans ?_
  rw [unread]
  by_cases hzero : (firstInformation mem pointer).size = 0#32
  · rw [if_neg (not_not.mpr hzero)]
    exact iff_of_true walksIn_none ⟨[], chain_nil_iff.mpr (hend.mp hzero)⟩
  · rw [if_pos hzero, walksIn_tags hfirst]
    refine exists_congr fun tags => and_iff_right_of_imp ?_
    rintro hfill rfl
    exact hzero (hend.mpr (chain_nil_iff.mp hfill))

/-- When the loop over the tags ends and reads only headers inside the block. -/
theorem readInformation_iff (mem : Memory) (pointer : Nat) :
    ReadsInside mem pointer ↔ ∃ tags, TagsFill mem pointer (pointer + 8) tags :=
  readsInside_iff

/-- A block of 24 bytes, where the size of the first tag is zero. -/
theorem readInformation_hangs : ¬ ∀ mem pointer, ReadsInside mem pointer := by
  intro h
  have hread := h (fun a => if a = 0x10000 then 24 else 0) 0x10000
  obtain ⟨tags, hfill⟩ := readsInside_iff.mp hread
  exact not_chain_of_next_self (by decide) (by decide) hfill

end Multiboot

end CyPhOS
