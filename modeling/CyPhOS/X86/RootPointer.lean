import CyPhOS.Common.Strcmp
import CyPhOS.Lib.TerminatedText
import CyPhOS.X86.ACPI

/-! # Looking for the root pointer

The root pointer of the ACPI tables is recognised by its signature and by that of the table that it
points to. `strncmp` also takes a signature that is cut short by a zero byte, and `checkRSDPValidity`
accepts an address if each of the two signatures is there or cut short (`checkRSDPValidity_iff`).
-/

namespace CyPhOS

open TerminatedText

/-- A `uint16_t` at an address. -/
def Memory.read16 (mem : Memory) (a : Nat) : Nat :=
  (mem a).toNat + (mem (a + 1)).toNat * 2 ^ 8

/-- A `uint64_t` at an address. -/
def Memory.read64 (mem : Memory) (a : Nat) : Nat := mem.read32 a + mem.read32 (a + 4) * 2 ^ 32

/-- A `char*`. -/
def Memory.chars (mem : Memory) (a : Nat) : Nat → UInt8 := fun k => mem (a + k)

theorem strncmpLoop_comm {a b : Nat → UInt8} {n : Nat} :
    strncmpLoop a b n = strncmpLoop b a n := by
  induction n generalizing a b with
  | zero => rfl
  | succ n ih =>
    rw [strncmpLoop, strncmpLoop, ih, if_congr and_comm rfl rfl, if_congr ne_comm rfl rfl]

theorem strncmp_comm {a b : Nat → UInt8} {n : Nat} : strncmp a b n = strncmp b a n := by
  rw [strncmp, strncmp, strncmpLoop_comm, if_congr ne_comm rfl rfl]

namespace ACPI

/-- A string literal, which has a terminator. -/
def literal (text : List UInt8) : Nat → UInt8 := fun k => text[k]?.getD 0

/-- `"RSD PTR "` -/
def rsdpSignature : List UInt8 := [0x52, 0x53, 0x44, 0x20, 0x50, 0x54, 0x52, 0x20]

/-- `"RSDT"` -/
def rsdtSignature : List UInt8 := [0x52, 0x53, 0x44, 0x54]

/-- `"XSDT"` -/
def xsdtSignature : List UInt8 := [0x58, 0x53, 0x44, 0x54]

def rsdp2BaseAddress : Nat := 0x400e

/-- The `revision` of an `RSDP2`. -/
def revision (mem : Memory) (rsdp : Nat) : UInt8 := mem (rsdp + 15)

/-- `GET_RSDT_FROM_RSDP` -/
def getRsdt (mem : Memory) (rsdp : Nat) : Nat := mem.read32 (rsdp + 16)

/-- `GET_XSDT_FROM_RSDP` -/
def getXsdt (mem : Memory) (rsdp : Nat) : Nat := mem.read64 (rsdp + 24)

def checkRSDPValidity (mem : Memory) (rsdp : Nat) : Bool :=
  let rsdpSigFound := strncmp (mem.chars rsdp) (literal rsdpSignature) 8
  let sdtSigFound :=
    if 1 < revision mem rsdp then
      strncmp (literal xsdtSignature) (mem.chars (getXsdt mem rsdp)) 4
    else strncmp (literal rsdtSignature) (mem.chars (getRsdt mem rsdp)) 4
  rsdpSigFound && sdtSigFound

/-- `findRSDP` in a range. -/
def findRSDPIn (mem : Memory) (start length : Nat) : Nat :=
  if 0 < length then
    if checkRSDPValidity mem start then start
    else findRSDPIn mem (start + 0x10) (if length < 0x10 then 0 else length - 0x10)
  else 0
termination_by length
decreasing_by
  split <;> omega

def findRSDP (mem : Memory) : Nat :=
  if checkRSDPValidity mem rsdp2BaseAddress then rsdp2BaseAddress
  else
    let rsdp := findRSDPIn mem (mem.read16 (0x40 <<< 4 + 0x0e) <<< 4) 0x400
    if rsdp ≠ 0 then rsdp else findRSDPIn mem 0xE0000 0x1FFFF

variable {mem : Memory} {rsdp : Nat}

/-! ## Signatures -/

/-- The signature ends at a zero byte, behind its first character at least. -/
def CutOff (str : Nat → UInt8) (signature : List UInt8) : Prop :=
  ∃ k < signature.length, 0 < k ∧ Shows 0 str (signature.take k)

section
variable {str : Nat → UInt8} {signature : List UInt8} {k : Nat}

theorem literal_of_lt (hk : k < signature.length) : literal signature k = signature[k] := by
  rw [literal, List.getElem?_eq_getElem hk, Option.getD_some]

theorem literal_ne_zero (h0 : 0 ∉ signature) (hk : k < signature.length) :
    literal signature k ≠ 0 := by
  rw [literal_of_lt hk]
  exact fun h => h0 (h ▸ List.getElem_mem hk)

/-- What comes before a place is the signature, without its end. -/
theorem sameBefore_literal (h0 : 0 ∉ signature) (hk : k ≤ signature.length) :
    SameBefore str (literal signature) k ↔ Begins str (signature.take k) := by
  constructor
  · intro h j hj
    rw [List.length_take] at hj
    rw [List.getElem_take, (h j (by omega)).1, literal_of_lt (by omega)]
  · intro h j hj
    have heq : str j = literal signature j := by
      rw [h j (by rw [List.length_take]; omega), List.getElem_take, literal_of_lt (by omega)]
    exact ⟨heq, heq ▸ literal_ne_zero h0 (by omega)⟩

theorem agreeUpTo_literal (h0 : 0 ∉ signature) :
    AgreeUpTo str (literal signature) signature.length ↔ Begins str signature := by
  constructor
  · intro h k
    induction k using Nat.strongRecOn with
    | _ k ih =>
      intro hk
      have hsame : SameBefore str (literal signature) k :=
        (sameBefore_literal h0 (Nat.le_of_lt hk)).mpr fun j hj => by
          rw [List.length_take] at hj
          rw [List.getElem_take]
          exact ih j (by omega) (by omega)
      rw [h k hk hsame, literal_of_lt hk]
  · exact fun h k hk _ => (h k hk).trans (literal_of_lt hk).symm

theorem cutShort_literal (h0 : 0 ∉ signature) :
    CutShort str (literal signature) signature.length ↔ CutOff str signature := by
  refine exists_congr fun k => and_congr_right fun hk => and_congr_right fun _ => ?_
  have hne : literal signature k ≠ 0 := literal_ne_zero h0 hk
  have hlength : (signature.take k).length = k := List.length_take_of_le (Nat.le_of_lt hk)
  rw [sameBefore_literal h0 (Nat.le_of_lt hk), iff_true_right hne]
  exact ⟨fun h => ⟨h.1, hlength.symm ▸ h.2⟩, fun h => ⟨h.begins, hlength ▸ h.terminator⟩⟩

theorem strncmp_literal (h0 : 0 ∉ signature) (hpos : 0 < signature.length) :
    strncmp str (literal signature) signature.length = true ↔
      Begins str signature ∨ CutOff str signature := by
  rw [strncmp_eq_true_iff, agreeUpTo_literal h0, cutShort_literal h0, and_iff_right_iff_imp]
  rintro (h | ⟨k, hk, hk0, h⟩)
  · rw [h 0 hpos, literal_of_lt hpos]
  · rw [h.begins 0 (by rw [List.length_take]; omega), List.getElem_take, literal_of_lt hpos]

theorem not_cutOff_of_begins (h0 : 0 ∉ signature) (h : Begins str signature) :
    ¬ CutOff str signature := fun hcut =>
  ((cutShort_literal h0).mpr hcut).not_agree ((agreeUpTo_literal h0).mpr h)

end

/-! ## The root pointer -/

/-- The table that the root pointer points to, and the signature that it should have. -/
def sdt (mem : Memory) (rsdp : Nat) : (Nat → UInt8) × List UInt8 :=
  if 1 < revision mem rsdp then (mem.chars (getXsdt mem rsdp), xsdtSignature)
  else (mem.chars (getRsdt mem rsdp), rsdtSignature)

/-- Both signatures are completely present. -/
def SignaturesPresent (mem : Memory) (rsdp : Nat) : Prop :=
  Begins (mem.chars rsdp) rsdpSignature ∧ Begins (sdt mem rsdp).1 (sdt mem rsdp).2

/-- One signature is cut off, and the other one is present or cut off as well. -/
def TruncatedSignature (mem : Memory) (rsdp : Nat) : Prop :=
  CutOff (mem.chars rsdp) rsdpSignature ∧
      (Begins (sdt mem rsdp).1 (sdt mem rsdp).2 ∨ CutOff (sdt mem rsdp).1 (sdt mem rsdp).2) ∨
    Begins (mem.chars rsdp) rsdpSignature ∧ CutOff (sdt mem rsdp).1 (sdt mem rsdp).2

theorem sdt_signature (mem : Memory) (rsdp : Nat) :
    0 ∉ (sdt mem rsdp).2 ∧ (sdt mem rsdp).2.length = 4 := by
  rw [sdt]
  split
  · exact ⟨show 0 ∉ xsdtSignature by decide, rfl⟩
  · exact ⟨show 0 ∉ rsdtSignature by decide, rfl⟩

theorem checkRSDPValidity_eq_true : checkRSDPValidity mem rsdp = true ↔
    (Begins (mem.chars rsdp) rsdpSignature ∨ CutOff (mem.chars rsdp) rsdpSignature) ∧
      (Begins (sdt mem rsdp).1 (sdt mem rsdp).2 ∨ CutOff (sdt mem rsdp).1 (sdt mem rsdp).2) := by
  obtain ⟨h0, hlength⟩ := sdt_signature mem rsdp
  have hsdt : checkRSDPValidity mem rsdp =
      (strncmp (mem.chars rsdp) (literal rsdpSignature) rsdpSignature.length &&
        strncmp (sdt mem rsdp).1 (literal (sdt mem rsdp).2) (sdt mem rsdp).2.length) := by
    rw [hlength, strncmp_comm (a := (sdt mem rsdp).1), checkRSDPValidity, sdt]
    split <;> rfl
  rw [hsdt, Bool.and_eq_true, strncmp_literal (by decide) (by decide),
    strncmp_literal h0 (by rw [hlength]; decide)]

theorem checkRSDPValidity_iff :
    (checkRSDPValidity mem rsdp = true → SignaturesPresent mem rsdp) ↔
      ¬ TruncatedSignature mem rsdp := by
  have hrsdp : Begins (mem.chars rsdp) rsdpSignature → ¬ CutOff (mem.chars rsdp) rsdpSignature :=
    not_cutOff_of_begins (by decide)
  have hsdt : Begins (sdt mem rsdp).1 (sdt mem rsdp).2 →
      ¬ CutOff (sdt mem rsdp).1 (sdt mem rsdp).2 :=
    not_cutOff_of_begins (sdt_signature mem rsdp).1
  rw [checkRSDPValidity_eq_true, SignaturesPresent, TruncatedSignature]
  tauto

theorem findRSDPIn_valid {start length : Nat} (h : findRSDPIn mem start length ≠ 0) :
    checkRSDPValidity mem (findRSDPIn mem start length) = true := by
  induction start, length using findRSDPIn.induct mem with
  | case1 start length hlength hcheck => rwa [findRSDPIn, if_pos hlength, if_pos hcheck]
  | case2 start length hlength hcheck ih =>
    rw [findRSDPIn, if_pos hlength, if_neg hcheck] at h ⊢
    exact ih h
  | case3 start length hlength =>
    rw [findRSDPIn, if_neg hlength] at h
    exact absurd rfl h

/-- What `findRSDP` finds has its signatures if none is cut off there. -/
theorem findRSDP_present (h : findRSDP mem ≠ 0)
    (hwhole : ¬ TruncatedSignature mem (findRSDP mem)) :
    SignaturesPresent mem (findRSDP mem) := by
  refine checkRSDPValidity_iff.mpr hwhole ?_
  rw [findRSDP] at h ⊢
  split
  · assumption
  · next hbase =>
    rw [if_neg hbase] at h
    dsimp only at h ⊢
    split
    · exact findRSDPIn_valid ‹_›
    · next hebda =>
      rw [if_neg hebda] at h
      exact findRSDPIn_valid h

/-- When `strncmp` is exact, and `checkRSDPValidity` accepts whole signatures only. -/
theorem signatures_iff (a b : Nat → UInt8) (n : Nat) (mem : Memory) (rsdp : Nat) :
    ((strncmp a b n = true ↔ AgreeUpTo a b n) ↔
      ¬ (n = 0 ∧ a 0 ≠ b 0) ∧ ¬ CutShort a b n) ∧
    ((checkRSDPValidity mem rsdp = true → SignaturesPresent mem rsdp) ↔
      ¬ TruncatedSignature mem rsdp) :=
  ⟨strncmp_iff, checkRSDPValidity_iff⟩

/-- An `R` before zeroes, which points to itself. -/
theorem signatures_truncated :
    ¬ ((∀ a b n, strncmp a b n = true ↔ AgreeUpTo a b n) ∧
      ∀ mem rsdp, checkRSDPValidity mem rsdp = true → SignaturesPresent mem rsdp) := by
  rintro ⟨-, h⟩
  have hpresent := h (fun a => if a = 0xE0000 then 0x52 else if a = 0xE0012 then 0x0E else 0)
    0xE0000 (by decide)
  have hnext := hpresent.1 1 (by decide)
  revert hnext
  decide

end ACPI

end CyPhOS
