import CyPhOS.Lib.RecordWalk
import CyPhOS.X86.RootPointer
import Mathlib.Algebra.Order.Ring.Nat

/-! # Walks over the tables

The walk over the MADT stays in the table and ends if the entries fill it, from the first one to its
end, and there is at least one (`walksInside_iff`). `findTablefromRSDT` and `findTablefromXSDT` step
over entries of one size, and the last one may stick out of the table (`searchesInside_iff`).
-/

namespace CyPhOS

open RecordWalk

namespace ACPI

variable {mem : Memory} {mMADT a fuel : Nat} {entries : List Nat}

/-! ## The MADT -/

/-- The loop in `initACPI` does its body for the entries that it visits. -/
theorem registerEntries_eq {nrCpus : Nat} {P : Platform nrCpus} {entry : Option Nat} :
    registerEntries mem mMADT fuel entry P =
      match follow (getNextEntry mem mMADT) fuel entry with
      | some entries => .ok (entries.foldl (registerEntry mem) P)
      | none => .error .hang := by
  induction fuel generalizing entry P with
  | zero => cases entry <;> rfl
  | succ fuel ih =>
    cases entry with
    | none => rfl
    | some entry =>
      rw [registerEntries, follow, ih]
      cases follow (getNextEntry mem mMADT) fuel (getNextEntry mem mMADT entry) <;> rfl

/-- The header of an entry and the bytes that it counts are in the table, behind the address and the
flags. -/
def EntryInside (mem : Memory) (mMADT entry : Nat) : Prop :=
  mMADT + 44 ≤ entry ∧ entry + 2 ≤ mMADT + madtLength mem mMADT ∧
    entry + entryLength mem entry ≤ mMADT + madtLength mem mMADT

/-- The entries follow one another and fill the table from `a` on. -/
abbrev Fills (mem : Memory) (mMADT a : Nat) (entries : List Nat) : Prop :=
  Chain (fun entry => entry + entryLength mem entry) (EntryInside mem mMADT)
    (mMADT + madtLength mem mMADT) a entries

/-- The loop over `getNextEntry` ends, and has visited only entries that are inside the table. -/
def WalksInside (mem : Memory) (mMADT : Nat) : Prop :=
  ∃ fuel entries,
    follow (getNextEntry mem mMADT) fuel (getNextEntry mem mMADT mMADT) = some entries ∧
    ∀ entry ∈ entries, EntryInside mem mMADT entry

theorem WalksInside.initMADT (h : WalksInside mem mMADT) {nrCpus : Nat} (P : Platform nrCpus) :
    ∃ fuel P', initMADT mem mMADT fuel P = .ok P' := by
  obtain ⟨fuel, entries, hfollow, -⟩ := h
  exact ⟨fuel, entries.foldl (registerEntry mem) P,
    by rw [ACPI.initMADT, registerEntries_eq, hfollow]⟩

theorem walksInside_iff : WalksInside mem mMADT ↔
    ∃ entries, entries ≠ [] ∧ Fills mem mMADT (mMADT + 44) entries := by
  have hfirst : getNextEntry mem mMADT mMADT = some (mMADT + 44) := if_pos rfl
  rw [WalksInside, ← walksIn_iff_follow, hfirst]
  refine walksIn_iff_chain (mMADT < ·) id ?_ ?_ (by omega)
  · intro entry hlt _ hend
    dsimp only [id] at hend
    rw [getNextEntry, if_neg (Nat.ne_of_gt hlt), if_neg (Nat.not_lt.mpr (Nat.le_of_eq hend.symm))]
  · rintro entry hlt ⟨-, -, hin⟩ hmore
    dsimp only [id] at hin hmore ⊢
    rw [getNextEntry, if_neg (Nat.ne_of_gt hlt), if_pos (Nat.lt_of_le_of_ne hin hmore)]
    exact ⟨_, rfl, Nat.lt_of_lt_of_le hlt (Nat.le_add_right ..), rfl⟩

/-! ## The RSDT and the XSDT -/

/-- How the entries of a table are read. -/
structure Layout where
  width : Nat
  readEntry : Memory → Nat → Nat

def rsdtLayout : Layout := ⟨4, Memory.read32⟩

def xsdtLayout : Layout := ⟨8, Memory.read64⟩

/-- The `length` of an `RSDT` or `XSDT`. -/
def sdtLength (mem : Memory) (sdt : BitVec 64) : Nat := mem.read32 (sdt.toNat + 4)

def entriesStart (sdt : BitVec 64) : BitVec 64 := sdt + 36#64

def entriesEnd (mem : Memory) (sdt : BitVec 64) : BitVec 64 :=
  entriesStart sdt + (BitVec.ofNat 64 (sdtLength mem sdt) - 36#64)

/-- The entry points to a table with the signature. -/
def tableMatches (mem : Memory) (layout : Layout) (tableSignature : List UInt8)
    (entry : BitVec 64) : Bool :=
  strncmp (literal tableSignature) (mem.chars (layout.readEntry mem entry.toNat)) 4

/-- `while (entriesStart < entriesEnd)` -/
def findTableLoop (mem : Memory) (layout : Layout) (tableSignature : List UInt8)
    (entriesEnd : BitVec 64) : Nat → BitVec 64 → Exec Nat
  | fuel, entriesStart =>
    if entriesStart < entriesEnd then
      match fuel with
      | 0 => .error .hang
      | fuel + 1 =>
        if tableMatches mem layout tableSignature entriesStart then
          .ok (layout.readEntry mem entriesStart.toNat)
        else findTableLoop mem layout tableSignature entriesEnd fuel
          (entriesStart + .ofNat 64 layout.width)
    else .ok 0

/-- `findTablefromRSDT` and `findTablefromXSDT` -/
def findTable (mem : Memory) (layout : Layout) (fuel : Nat) (sdt : BitVec 64)
    (tableSignature : List UInt8) : Exec Nat :=
  findTableLoop mem layout tableSignature (entriesEnd mem sdt) fuel (entriesStart sdt)

def findTablefromRSDT (mem : Memory) : Nat → BitVec 64 → List UInt8 → Exec Nat :=
  findTable mem rsdtLayout

def findTablefromXSDT (mem : Memory) : Nat → BitVec 64 → List UInt8 → Exec Nat :=
  findTable mem xsdtLayout

/-- The next entry that the loop reads. -/
def nextEntry (mem : Memory) (layout : Layout) (tableSignature : List UInt8)
    (entriesEnd : BitVec 64) (entry : BitVec 64) : Option (BitVec 64) :=
  if tableMatches mem layout tableSignature entry then none
  else
    let next := entry + .ofNat 64 layout.width
    if next < entriesEnd then some next else none

/-- The first entry that the loop reads. -/
def firstEntry (entriesStart entriesEnd : BitVec 64) : Option (BitVec 64) :=
  if entriesStart < entriesEnd then some entriesStart else none

variable {layout : Layout} {tableSignature : List UInt8} {sdt entry stop : BitVec 64}

/-- What the loop returns is the last entry that it reads, if that is the right one. -/
theorem findTableLoop_eq : findTableLoop mem layout tableSignature stop fuel entry =
    match follow (nextEntry mem layout tableSignature stop) fuel (firstEntry entry stop) with
    | some entries =>
      .ok ((entries.getLast?.filter (tableMatches mem layout tableSignature)).elim 0
        fun entry => layout.readEntry mem entry.toNat)
    | none => .error .hang := by
  induction fuel generalizing entry with
  | zero =>
    rw [findTableLoop, firstEntry]
    split <;> rfl
  | succ fuel ih =>
    rw [findTableLoop, firstEntry]
    split
    · rw [follow, nextEntry]
      by_cases hmatch : tableMatches mem layout tableSignature entry
      · simp [hmatch, follow, Option.filter]
      · rw [if_neg hmatch, if_neg hmatch, ih, firstEntry]
        dsimp only
        cases follow (nextEntry mem layout tableSignature stop) fuel _ with
        | none => rfl
        | some entries =>
          cases entries with
          | nil => simp [Option.filter, hmatch]
          | cons => simp [List.getLast?_cons_cons]
    · rfl

/-- An entry of a table is completely inside, behind the header. -/
def SdtEntryInside (mem : Memory) (layout : Layout) (sdt entry : BitVec 64) : Prop :=
  36 ≤ (entry - sdt).toNat ∧ (entry - sdt).toNat + layout.width ≤ sdtLength mem sdt

/-- The search returns, and has read only entries that are inside the table. -/
def SearchesInside (mem : Memory) (layout : Layout) (sdt : BitVec 64)
    (tableSignature : List UInt8) : Prop :=
  ∃ fuel result entries, findTable mem layout fuel sdt tableSignature = .ok result ∧
    follow (nextEntry mem layout tableSignature (entriesEnd mem sdt)) fuel
        (firstEntry (entriesStart sdt) (entriesEnd mem sdt)) = some entries ∧
      ∀ entry ∈ entries, SdtEntryInside mem layout sdt entry

theorem searchesInside_iff_walksIn : SearchesInside mem layout sdt tableSignature ↔
    WalksIn (nextEntry mem layout tableSignature (entriesEnd mem sdt))
      (SdtEntryInside mem layout sdt) (firstEntry (entriesStart sdt) (entriesEnd mem sdt)) := by
  rw [walksIn_iff_follow]
  constructor
  · rintro ⟨fuel, _, entries, -, h⟩
    exact ⟨fuel, entries, h⟩
  · rintro ⟨fuel, entries, hfollow, hinside⟩
    exact ⟨fuel, _, entries, by rw [findTable, findTableLoop_eq, hfollow], hfollow, hinside⟩

/-- There is nothing to read, or the entries come to the end of the table, or one of them has the
signature. -/
def EntriesFit (mem : Memory) (layout : Layout) (sdt : BitVec 64) (tableSignature : List UInt8) :
    Prop :=
  entriesEnd mem sdt ≤ entriesStart sdt ∨
    36 ≤ sdtLength mem sdt ∧ (layout.width ∣ sdtLength mem sdt - 36 ∨
      ∃ k, 36 + layout.width * (k + 1) ≤ sdtLength mem sdt ∧
        tableMatches mem layout tableSignature (entriesStart sdt + .ofNat 64 (layout.width * k)))

theorem sdtLength_lt (mem : Memory) (sdt : BitVec 64) : sdtLength mem sdt < 2 ^ 32 := by
  have h0 := (mem (sdt.toNat + 4)).toNat_lt
  have h1 := (mem (sdt.toNat + 4 + 1)).toNat_lt
  have h2 := (mem (sdt.toNat + 4 + 2)).toNat_lt
  have h3 := (mem (sdt.toNat + 4 + 3)).toNat_lt
  rw [sdtLength, Memory.read32]
  omega

/-- The place of an entry behind the first one. -/
theorem entry_sub_sdt {m : Nat} (hm : m < 2 ^ 33) :
    (entriesStart sdt + .ofNat 64 m - sdt).toNat = 36 + m := by
  rw [entriesStart]
  simp only [BitVec.toNat_sub, BitVec.toNat_add, BitVec.toNat_ofNat]
  omega

/-- If there is anything to read, the end is where the table ends. -/
theorem entriesEnd_toNat (hlt : entriesStart sdt < entriesEnd mem sdt)
    (hlength : 36 ≤ sdtLength mem sdt) :
    (entriesEnd mem sdt).toNat = (entriesStart sdt).toNat + (sdtLength mem sdt - 36) := by
  have hbound := sdtLength_lt mem sdt
  have hsize : (BitVec.ofNat 64 (sdtLength mem sdt)).toNat = sdtLength mem sdt := by
    rw [BitVec.toNat_ofNat, Nat.mod_eq_of_lt (by omega)]
  have hsub : (BitVec.ofNat 64 (sdtLength mem sdt) - 36#64).toNat = sdtLength mem sdt - 36 := by
    rw [BitVec.toNat_sub_of_le (BitVec.le_def.mpr (hsize.symm ▸ hlength)), hsize]
    rfl
  rw [BitVec.lt_def] at hlt
  rw [entriesEnd, BitVec.toNat_add, hsub] at hlt ⊢
  omega

theorem sdtEntryInside_iff {m : Nat} (hm : m < 2 ^ 33) :
    SdtEntryInside mem layout sdt (entriesStart sdt + .ofNat 64 m) ↔
      36 + m + layout.width ≤ sdtLength mem sdt := by
  rw [SdtEntryInside, entry_sub_sdt hm]
  omega

/-- Behind an entry that is inside the table and does not match. -/
theorem nextEntry_eq {m : Nat} (hstart : entriesStart sdt < entriesEnd mem sdt)
    (hin : 36 + m + layout.width ≤ sdtLength mem sdt)
    (hmatch : ¬ tableMatches mem layout tableSignature (entriesStart sdt + .ofNat 64 m)) :
    nextEntry mem layout tableSignature (entriesEnd mem sdt) (entriesStart sdt + .ofNat 64 m) =
      if 36 + m + layout.width < sdtLength mem sdt then
        some (entriesStart sdt + .ofNat 64 (m + layout.width))
      else none := by
  have hsucc : entriesStart sdt + .ofNat 64 m + .ofNat 64 layout.width =
      entriesStart sdt + .ofNat 64 (m + layout.width) := by
    rw [BitVec.ofNat_add, BitVec.add_assoc]
  have hbelow : entriesStart sdt + .ofNat 64 (m + layout.width) < entriesEnd mem sdt ↔
      36 + m + layout.width < sdtLength mem sdt := by
    have hend := entriesEnd_toNat hstart (by omega)
    have hlt := (entriesEnd mem sdt).isLt
    rw [BitVec.lt_def, BitVec.toNat_add, BitVec.toNat_ofNat]
    omega
  rw [nextEntry, if_neg hmatch, hsucc]
  exact if_congr hbelow rfl rfl

/-- The walk from the entry with this number on. -/
theorem walk_entries_iff (tableSignature : List UInt8) (k : Nat) (hwidth : 0 < layout.width)
    (hwidth' : layout.width ≤ 8) (hstart : entriesStart sdt < entriesEnd mem sdt)
    (hk : 36 + layout.width * k < sdtLength mem sdt) :
    WalksIn (nextEntry mem layout tableSignature (entriesEnd mem sdt))
        (SdtEntryInside mem layout sdt)
        (some (entriesStart sdt + .ofNat 64 (layout.width * k))) ↔
      layout.width ∣ sdtLength mem sdt - 36 ∨
        ∃ j, k ≤ j ∧ 36 + layout.width * (j + 1) ≤ sdtLength mem sdt ∧
          tableMatches mem layout tableSignature
            (entriesStart sdt + .ofNat 64 (layout.width * j)) := by
  generalize hrest : sdtLength mem sdt - layout.width * k = rest
  induction rest using Nat.strongRecOn generalizing k with
  | _ rest ih =>
  have hbound := sdtLength_lt mem sdt
  have hsucc : layout.width * (k + 1) = layout.width * k + layout.width := Nat.mul_succ ..
  rw [walksIn_some, sdtEntryInside_iff (by omega)]
  by_cases hin : 36 + layout.width * k + layout.width ≤ sdtLength mem sdt
  · rw [and_iff_right hin]
    by_cases hmatch : tableMatches mem layout tableSignature
      (entriesStart sdt + .ofNat 64 (layout.width * k))
    · -- the loop returns here
      rw [nextEntry, if_pos hmatch]
      exact iff_of_true walksIn_none (.inr ⟨k, Nat.le_refl k, by omega, hmatch⟩)
    · rw [nextEntry_eq hstart hin hmatch, ← hsucc]
      by_cases hmore : 36 + layout.width * k + layout.width < sdtLength mem sdt
      · rw [if_pos hmore, ih _ (by omega) (k + 1) (by omega) rfl]
        refine or_congr_right (exists_congr fun j => ?_)
        constructor
        · exact fun ⟨hj, h⟩ => ⟨Nat.le_of_succ_le hj, h⟩
        · rintro ⟨hj, hj', h⟩
          refine ⟨Nat.lt_of_le_of_ne hj ?_, hj', h⟩
          rintro rfl
          exact hmatch h
      · -- the table ends here
        rw [if_neg hmore]
        exact iff_of_true walksIn_none (.inl ⟨k + 1, by omega⟩)
  · -- the entry sticks out of the table
    refine iff_of_false (fun h => hin h.1) ?_
    rintro (⟨m, hm⟩ | ⟨j, hj, hj', -⟩)
    · have hlt : k < m := by
        by_contra hle
        have := Nat.mul_le_mul_left layout.width (Nat.not_lt.mp hle)
        omega
      have := Nat.mul_le_mul_left layout.width (show k + 1 ≤ m from hlt)
      omega
    · have := Nat.mul_le_mul_left layout.width (show k + 1 ≤ j + 1 by omega)
      omega

theorem searchesInside_iff (hwidth : 0 < layout.width) (hwidth' : layout.width ≤ 8) :
    SearchesInside mem layout sdt tableSignature ↔ EntriesFit mem layout sdt tableSignature := by
  rw [searchesInside_iff_walksIn, firstEntry, EntriesFit]
  by_cases hstart : entriesStart sdt < entriesEnd mem sdt
  · rw [if_pos hstart, or_iff_right (BitVec.not_le.mpr hstart)]
    have hzero : entriesStart sdt + .ofNat 64 (layout.width * 0) = entriesStart sdt :=
      BitVec.add_zero _
    by_cases hlength : 36 ≤ sdtLength mem sdt
    · have hpos : 36 < sdtLength mem sdt := by
        have hend := entriesEnd_toNat hstart hlength
        rw [BitVec.lt_def] at hstart
        omega
      have hwalk := walk_entries_iff tableSignature 0 hwidth hwidth' hstart hpos
      rw [hzero] at hwalk
      rw [hwalk, and_iff_right hlength]
      simp only [Nat.zero_le, true_and]
    · refine iff_of_false (fun h => ?_) fun h => hlength h.1
      have hfirst := (walksIn_some.mp h).1
      rw [← hzero, sdtEntryInside_iff (by omega)] at hfirst
      omega
  · rw [if_neg hstart]
    exact iff_of_true walksIn_none (.inl (BitVec.not_lt.mp hstart))

/-- Which memory contents keep the walks inside the tables. -/
theorem walks_iff (mem : Memory) :
    (∀ mMADT, WalksInside mem mMADT ↔
      ∃ entries, entries ≠ [] ∧ Fills mem mMADT (mMADT + 44) entries) ∧
    ∀ sdt tableSignature,
      (SearchesInside mem rsdtLayout sdt tableSignature ↔
        EntriesFit mem rsdtLayout sdt tableSignature) ∧
      (SearchesInside mem xsdtLayout sdt tableSignature ↔
        EntriesFit mem xsdtLayout sdt tableSignature) :=
  ⟨fun _ => walksInside_iff, fun _ _ =>
    ⟨searchesInside_iff (by decide) (by decide), searchesInside_iff (by decide) (by decide)⟩⟩

/-- An MADT of 44 bytes has no entries. -/
theorem walks_empty_table :
    ¬ ∀ mem : Memory, (∀ mMADT, WalksInside mem mMADT) ∧
      ∀ sdt tableSignature, SearchesInside mem rsdtLayout sdt tableSignature ∧
        SearchesInside mem xsdtLayout sdt tableSignature := by
  intro h
  have hwalk := (h fun a => if a = 0x1004 then 44 else 0).1 0x1000
  obtain ⟨entries, hne, hfills⟩ := walksInside_iff.mp hwalk
  cases hfills with
  | nil => exact hne rfl
  | cons hinside =>
    have hheader := hinside.2.1
    revert hheader
    decide

end ACPI

end CyPhOS
