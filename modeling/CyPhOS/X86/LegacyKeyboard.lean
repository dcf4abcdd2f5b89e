import CyPhOS.Common.BitManipulation
import Mathlib.Data.List.Induction

/-! # The keyboard

`decodeKey` gets one byte after the other from the keyboard. A code with the release bit is compared
with the codes of pressed modifiers, so that no modifier is ever cleared, pressing a modifier or a
lock leaves the prefix as it is, and the prefix `E1` of the pause key is not told from none.
`Follows` says what the flags and the prefix should be after some bytes, and `decodeKey_iff` which
sequences of bytes keep to it.
-/

namespace CyPhOS

namespace LegacyKeyboard

/-! ## Keys -/

/-- `MODIFIER_t` -/
inductive Modifier
  | shift
  | altLeft
  | altRight
  | ctrlLeft
  | ctrlRight
  | capsLock
  | numLock
  | scrollLock
  deriving DecidableEq, Repr

def Modifier.mask : Modifier → BitVec 8
  | .shift => 0x1
  | .altLeft => 0x2
  | .altRight => 0x4
  | .ctrlLeft => 0x8
  | .ctrlRight => 0x10
  | .capsLock => 0x20
  | .numLock => 0x40
  | .scrollLock => 0x80

structure Key where
  mAsciiCode : UInt8
  mScanCode : UInt8
  mModifier : BitVec 8
  deriving DecidableEq, Repr

/-- `setShift`, `setAltLeft` and so on. -/
def Key.set (k : Key) (m : Modifier) (pressed : Bool) : Key :=
  { k with mModifier := if pressed then k.mModifier ||| m.mask else k.mModifier &&& ~~~m.mask }

/-- `getShift`, `getAltLeft` and so on. -/
def Key.get (k : Key) (m : Modifier) : Bool := k.mModifier &&& m.mask != 0

/-! ## Codes -/

def cLeftShiftPressed : UInt8 := 0x2A

def cRightShiftPressed : UInt8 := 0x36

def cLeftAltPressed : UInt8 := 0x38

def cLeftControlPressed : UInt8 := 0x1D

def cCapsLockPressed : UInt8 := 0x3A

def cScrollLockPressed : UInt8 := 0x46

def cPrefixE0 : UInt8 := 0xE0

def cPrefixE1 : UInt8 := 0xE1

def cReleaseBit : UInt8 := 0x80

def cTabNormal : List UInt8 :=
  [0, 0, 49, 50, 51, 52, 53, 54, 55, 56, 57, 48, 225, 39, 8,
    0, 113, 119, 101, 114, 116, 122, 117, 105, 111, 112, 129, 43, 10,
    0, 97, 115, 100, 102, 103, 104, 106, 107, 108, 148, 132, 94, 0, 35,
    121, 120, 99, 118, 98, 110, 109, 44, 46, 45, 0,
    42, 0, 32, 0, 0, 0, 0, 0, 0, 0, 0, 0, 0, 0, 0, 0, 0, 0, 0, 45,
    0, 0, 0, 43, 0, 0, 0, 0, 0, 0, 0, 60, 0, 0]

def cTabShift : List UInt8 :=
  [0, 0, 33, 34, 21, 36, 37, 38, 47, 40, 41, 61, 63, 96, 0,
    0, 81, 87, 69, 82, 84, 90, 85, 73, 79, 80, 154, 42, 0,
    0, 65, 83, 68, 70, 71, 72, 74, 75, 76, 153, 142, 248, 0, 39,
    89, 88, 67, 86, 66, 78, 77, 59, 58, 95, 0,
    0, 0, 32, 0, 0, 0, 0, 0, 0, 0, 0, 0, 0, 0, 0, 0, 0, 0, 0, 0,
    0, 0, 0, 0, 0, 0, 0, 0, 0, 0, 0, 62, 0, 0]

def cTabAlt : List UInt8 :=
  [0, 0, 0, 253, 0, 0, 0, 0, 123, 91, 93, 125, 92, 0, 0,
    0, 64, 0, 0, 0, 0, 0, 0, 0, 0, 0, 0, 126, 0,
    0, 0, 0, 0, 0, 0, 0, 0, 0, 0, 0, 0, 0, 0, 0,
    0, 0, 0, 0, 0, 0, 230, 0, 0, 0, 0,
    0, 0, 0, 0, 0, 0, 0, 0, 0, 0, 0, 0, 0, 0, 0, 0, 0, 0, 0, 0,
    0, 0, 0, 0, 0, 0, 0, 0, 0, 0, 0, 124, 0, 0]

def cTabAscNum : List UInt8 := [55, 56, 57, 45, 52, 53, 54, 43, 49, 50, 51, 48, 44]

def cTabScanNum : List UInt8 := [8, 9, 10, 53, 5, 6, 7, 27, 2, 3, 4, 11, 51]

/-- `SCAN_CODE_DIV` -/
def scanCodeDiv : UInt8 := 8

/-- `COMMAND_SET_LED` -/
def commandSetLed : UInt8 := 0xed

/-- `REPLY_ACK` -/
def replyAck : UInt8 := 0xfa

/-- `LED_CAPS_LOCK` -/
def ledCapsLock : UInt8 := 0x4

/-- `LED_SCROLL_LOCK` -/
def ledScrollLock : UInt8 := 0x1

end LegacyKeyboard

open LegacyKeyboard in
/-- The driver, and the bytes that it has written to the data port. -/
structure LegacyKeyboard where
  mLEDs : UInt8
  mCurrentPrefix : UInt8
  mCurrentKey : Key
  sent : List UInt8
  deriving DecidableEq, Repr

namespace LegacyKeyboard

/-! ## Decoding -/

/-- In zeroed storage. -/
def new : LegacyKeyboard := ⟨0, 0, ⟨0, 0, 0⟩, []⟩

variable (k : LegacyKeyboard)

def getModifier (m : Modifier) : Bool := k.mCurrentKey.get m

def setModifier (m : Modifier) (pressed : Bool) : LegacyKeyboard :=
  { k with mCurrentKey := k.mCurrentKey.set m pressed }

def setASCIIChar (ascii scanCode : UInt8) : LegacyKeyboard :=
  { k with mCurrentKey := { k.mCurrentKey with mAsciiCode := ascii, mScanCode := scanCode } }

/-- A table has 89 entries; what is read behind them is a parameter. -/
def lookup (behind : UInt8 → UInt8) (table : List UInt8) (code : UInt8) : UInt8 :=
  table[code.toNat]?.getD (behind code)

def decodeAscii (behind : UInt8 → UInt8) (code : UInt8) : LegacyKeyboard :=
  if code = 53 ∧ k.mCurrentPrefix = cPrefixE0 then k.setASCIIChar 0x2F scanCodeDiv
  else if k.getModifier .numLock ∧ k.mCurrentPrefix = 0 ∧ 71 ≤ code ∧ code ≤ 83 then
    k.setASCIIChar (lookup behind cTabAscNum (code - 71)) (lookup behind cTabScanNum (code - 71))
  else if k.getModifier .altRight then k.setASCIIChar (lookup behind cTabAlt code) code
  else if k.getModifier .shift then k.setASCIIChar (lookup behind cTabShift code) code
  else if k.getModifier .capsLock then
    if 16 ≤ code ∧ code ≤ 26 ∨ 30 ≤ code ∧ code ≤ 40 ∨ 44 ≤ code ∧ code ≤ 50 then
      k.setASCIIChar (lookup behind cTabShift code) code
    else k.setASCIIChar (lookup behind cTabNormal code) code
  else k.setASCIIChar (lookup behind cTabNormal code) code

/-- `reply` is the first answer of the keyboard, which the driver waits for. -/
def setLED (led : UInt8) (enable : Bool) (reply : UInt8) : LegacyKeyboard :=
  let k := { k with sent := k.sent ++ [commandSetLed] }
  if reply = replyAck then
    let k := { k with mLEDs := if enable then k.mLEDs ||| led else k.mLEDs &&& ~~~led }
    { k with sent := k.sent ++ [k.mLEDs] }
  else k

/-- The cases for modifiers, which the two `switch` statements have in common. -/
def modifierCase (code : UInt8) : Option Modifier :=
  if code = cLeftShiftPressed ∨ code = cRightShiftPressed then some .shift
  else if code = cLeftControlPressed then
    some (if k.mCurrentPrefix = cPrefixE0 then .ctrlRight else .ctrlLeft)
  else if code = cLeftAltPressed then
    some (if k.mCurrentPrefix = cPrefixE0 then .altRight else .altLeft)
  else none

def toggleLock (m : Modifier) (led reply : UInt8) : LegacyKeyboard :=
  let currentState := k.getModifier m
  (k.setModifier m !currentState).setLED led (!currentState) reply

def decodeKey (behind : UInt8 → UInt8) (reply code : UInt8) : Bool × LegacyKeyboard :=
  if code = cPrefixE0 ∨ code = cPrefixE1 then (false, { k with mCurrentPrefix := code })
  else if code &&& cReleaseBit ≠ 0 then
    let k := match k.modifierCase code with
      | some m => k.setModifier m false
      | none => k
    (false, { k with mCurrentPrefix := 0 })
  else match k.modifierCase code with
    | some m => (false, k.setModifier m true)
    | none =>
      if code = cCapsLockPressed then (false, k.toggleLock .capsLock ledCapsLock reply)
      else if code = cScrollLockPressed then (false, k.toggleLock .scrollLock ledScrollLock reply)
      else (true, { k.decodeAscii behind code with mCurrentPrefix := 0 })

/-! ## Modifiers -/

variable {k} {m m' : Modifier} {code reply b : UInt8} {behind : UInt8 → UInt8}

def Modifier.bit : Modifier → Nat
  | .shift => 0
  | .altLeft => 1
  | .altRight => 2
  | .ctrlLeft => 3
  | .ctrlRight => 4
  | .capsLock => 5
  | .numLock => 6
  | .scrollLock => 7

theorem Modifier.bit_lt : m.bit < 8 := by
  cases m <;> decide

theorem Modifier.mask_eq : m.mask = 1#8 <<< m.bit := by
  cases m <;> rfl

theorem Modifier.bit_injective (h : m.bit = m'.bit) : m = m' := by
  cases m <;> cases m' <;> first | rfl | cases h

theorem Key.get_eq {key : Key} : key.get m = key.mModifier.getLsbD m.bit := by
  rw [Key.get, Modifier.mask_eq, ← BitVec.twoPow_eq, BitVec.and_twoPow]
  cases key.mModifier.getLsbD m.bit with
  | false => rfl
  | true => cases m <;> rfl

theorem Key.set_mModifier {key : Key} {pressed : Bool} :
    (key.set m pressed).mModifier = setbit key.mModifier m.bit pressed := by
  rw [Key.set, Modifier.mask_eq]
  rfl

theorem getModifier_setModifier {pressed : Bool} :
    (k.setModifier m pressed).getModifier m' = if m' = m then pressed else k.getModifier m' := by
  rw [getModifier, getModifier, Key.get_eq, Key.get_eq, setModifier, Key.set_mModifier,
    getLsbD_setbit Modifier.bit_lt]
  exact if_congr ⟨Modifier.bit_injective, congrArg Modifier.bit⟩ rfl rfl

theorem setLED_mCurrentKey {led : UInt8} {enable : Bool} :
    (k.setLED led enable reply).mCurrentKey = k.mCurrentKey := by
  rw [setLED]
  split <;> rfl

theorem setLED_mCurrentPrefix {led : UInt8} {enable : Bool} :
    (k.setLED led enable reply).mCurrentPrefix = k.mCurrentPrefix := by
  rw [setLED]
  split <;> rfl

theorem getModifier_decodeAscii : (k.decodeAscii behind code).getModifier m = k.getModifier m := by
  rw [decodeAscii]
  repeat' split
  all_goals rfl

theorem getModifier_toggleLock {led : UInt8} (h : m ≠ m') :
    (k.toggleLock m' led reply).getModifier m = k.getModifier m := by
  rw [toggleLock, getModifier, setLED_mCurrentKey]
  exact getModifier_setModifier.trans (if_neg h)

/-! ## What the keys do -/

/-- The keys that are modifiers. -/
inductive ModifierKey
  | leftShift
  | rightShift
  | leftControl
  | rightControl
  | leftAlt
  | rightAlt
  deriving DecidableEq, Repr

namespace ModifierKey

def pressedCode : ModifierKey → UInt8
  | .leftShift => cLeftShiftPressed
  | .rightShift => cRightShiftPressed
  | .leftControl | .rightControl => cLeftControlPressed
  | .leftAlt | .rightAlt => cLeftAltPressed

/-- The flag of the key. -/
def modifier : ModifierKey → Modifier
  | .leftShift | .rightShift => .shift
  | .leftControl => .ctrlLeft
  | .rightControl => .ctrlRight
  | .leftAlt => .altLeft
  | .rightAlt => .altRight

/-- The control and alt keys on the right have the codes of those on the left behind a prefix `E0`.
A code behind the prefix `E1` is no modifier key (it belongs to pause), nor is the code of a shift key
behind `E0` (the keyboard itself sends it). `last` is the byte in front of the code. -/
def At : ModifierKey → Option UInt8 → Prop
  | .leftShift, last | .rightShift, last | .leftControl, last | .leftAlt, last =>
    last ≠ some cPrefixE0 ∧ last ≠ some cPrefixE1
  | .rightControl, last | .rightAlt, last => last = some cPrefixE0

/-- What the driver looks at: whether the prefix is `E0`, and for the shift keys the code only. -/
def CaseAt : ModifierKey → Prop → Prop
  | .leftShift, _ | .rightShift, _ => True
  | .leftControl, afterE0 | .leftAlt, afterE0 => ¬ afterE0
  | .rightControl, afterE0 | .rightAlt, afterE0 => afterE0

end ModifierKey

variable {key key' : ModifierKey} {bytes : List UInt8}

/-- The last one of these bytes is a prefix `E0`. -/
def AfterE0 (bytes : List UInt8) : Prop := bytes.getLast? = some cPrefixE0

/-- The last one of these bytes is a prefix `E1`. -/
def AfterE1 (bytes : List UInt8) : Prop := bytes.getLast? = some cPrefixE1

/-- Behind these bytes, the next one says that the key is pressed. -/
def Presses (key : ModifierKey) (bytes : List UInt8) (b : UInt8) : Prop :=
  b = key.pressedCode ∧ key.At bytes.getLast?

/-- Behind these bytes, the next one says that the key is released. -/
def Releases (key : ModifierKey) (bytes : List UInt8) (b : UInt8) : Prop :=
  b = key.pressedCode ||| cReleaseBit ∧ key.At bytes.getLast?

/-- Behind these bytes, the driver takes the next one for the key that is pressed. -/
def TakenFor (key : ModifierKey) (bytes : List UInt8) (b : UInt8) : Prop :=
  b = key.pressedCode ∧ key.CaseAt (AfterE0 bytes)

/-- The key has been pressed and not released since. -/
def Held (key : ModifierKey) (bytes : List UInt8) : Prop :=
  ∃ pre b suf, bytes = pre ++ b :: suf ∧ Presses key pre b ∧
    ∀ mid c rest, suf = mid ++ c :: rest → ¬ Releases key (pre ++ b :: mid) c

/-- A key with this flag is held. -/
def HeldBy (m : Modifier) (bytes : List UInt8) : Prop :=
  ∃ key : ModifierKey, key.modifier = m ∧ Held key bytes

/-- What the driver should know after some bytes. -/
structure Follows (bytes : List UInt8) (k : LegacyKeyboard) : Prop where
  shift : k.getModifier .shift = true ↔ Held .leftShift bytes ∨ Held .rightShift bytes
  ctrlLeft : k.getModifier .ctrlLeft = true ↔ Held .leftControl bytes
  ctrlRight : k.getModifier .ctrlRight = true ↔ Held .rightControl bytes
  altLeft : k.getModifier .altLeft = true ↔ Held .leftAlt bytes
  altRight : k.getModifier .altRight = true ↔ Held .rightAlt bytes
  mCurrentPrefix : k.mCurrentPrefix = cPrefixE0 ↔ AfterE0 bytes

theorem follows_iff : Follows bytes k ↔
    (∀ key : ModifierKey, k.getModifier key.modifier = true ↔ HeldBy key.modifier bytes) ∧
      (k.mCurrentPrefix = cPrefixE0 ↔ AfterE0 bytes) := by
  have hshift : HeldBy .shift bytes ↔ Held .leftShift bytes ∨ Held .rightShift bytes := by
    constructor
    · rintro ⟨key, hkey, h⟩
      cases key <;> first | exact .inl h | exact .inr h | cases hkey
    · rintro (h | h)
      · exact ⟨_, rfl, h⟩
      · exact ⟨_, rfl, h⟩
  have hself : ∀ key : ModifierKey, key.modifier ≠ .shift →
      (HeldBy key.modifier bytes ↔ Held key bytes) := by
    refine fun key hne => ⟨?_, fun h => ⟨key, rfl, h⟩⟩
    rintro ⟨key', hkey, h⟩
    have heq : key' = key := by
      cases key' <;> cases key <;> first | rfl | exact absurd rfl hne | cases hkey
    exact heq ▸ h
  constructor
  · rintro ⟨hs, hcl, hcr, hal, har, hpre⟩
    refine ⟨fun key => ?_, hpre⟩
    cases key with
    | leftShift | rightShift => exact hs.trans hshift.symm
    | leftControl => exact hcl.trans (hself .leftControl (by decide)).symm
    | rightControl => exact hcr.trans (hself .rightControl (by decide)).symm
    | leftAlt => exact hal.trans (hself .leftAlt (by decide)).symm
    | rightAlt => exact har.trans (hself .rightAlt (by decide)).symm
  · rintro ⟨h, hpre⟩
    exact ⟨(h .leftShift).trans hshift, (h .leftControl).trans (hself .leftControl (by decide)),
      (h .rightControl).trans (hself .rightControl (by decide)),
      (h .leftAlt).trans (hself .leftAlt (by decide)),
      (h .rightAlt).trans (hself .rightAlt (by decide)), hpre⟩

theorem held_concat : Held key (bytes ++ [b]) ↔
    Presses key bytes b ∨ Held key bytes ∧ ¬ Releases key bytes b := by
  constructor
  · rintro ⟨pre, c, suf, heq, hpress, hsince⟩
    rcases List.eq_nil_or_concat suf with rfl | ⟨suf, last, rfl⟩
    · obtain ⟨rfl, hb⟩ := List.append_inj' heq rfl
      cases hb
      exact .inl hpress
    · rw [List.concat_eq_append, ← List.cons_append, ← List.append_assoc] at heq
      obtain ⟨rfl, hb⟩ := List.append_inj' heq rfl
      cases hb
      refine .inr ⟨⟨pre, c, suf, rfl, hpress, fun mid d rest hsuf => ?_⟩, ?_⟩
      · exact hsince mid d (rest ++ [b]) (by simp [hsuf])
      · exact hsince suf b [] (by simp)
  · rintro (hpress | ⟨⟨pre, c, suf, rfl, hpress, hsince⟩, hkeep⟩)
    · exact ⟨bytes, b, [], rfl, hpress, fun mid c rest h => by simp at h⟩
    · refine ⟨pre, c, suf ++ [b], by simp, hpress, fun mid d rest hsuf => ?_⟩
      rcases List.eq_nil_or_concat rest with rfl | ⟨rest, last, rfl⟩
      · obtain ⟨rfl, hd⟩ := List.append_inj' hsuf rfl
        cases hd
        exact hkeep
      · rw [List.concat_eq_append, ← List.cons_append, ← List.append_assoc] at hsuf
        exact hsince mid d rest (List.append_inj' hsuf rfl).1

theorem afterE0_concat : AfterE0 (bytes ++ [b]) ↔ b = cPrefixE0 := by
  rw [AfterE0, List.getLast?_concat, Option.some.injEq]

/-! ## What the driver does to the flags and the prefix -/

theorem modifierCase_eq_none_iff :
    k.modifierCase code = none ↔ ∀ key : ModifierKey, code ≠ key.pressedCode := by
  rw [modifierCase]
  constructor
  · rintro h key rfl
    cases key <;> cases h
  · intro h
    have hcontrol : code ≠ cLeftControlPressed := h .leftControl
    have halt : code ≠ cLeftAltPressed := h .leftAlt
    rw [if_neg, if_neg hcontrol, if_neg halt]
    rintro (heq | heq)
    · exact h .leftShift heq
    · exact h .rightShift heq

/-- A code with the release bit is none of the cases. -/
theorem modifierCase_eq_none (h : code &&& cReleaseBit ≠ 0) : k.modifierCase code = none := by
  refine modifierCase_eq_none_iff.mpr ?_
  rintro key rfl
  revert h
  cases key <;> decide

/-- No flag of a key is ever cleared. -/
theorem getModifier_decodeKey : (k.decodeKey behind reply code).2.getModifier key.modifier =
    (decide (k.modifierCase code = some key.modifier) || k.getModifier key.modifier) := by
  rw [decodeKey]
  split
  · next hpre =>
    rw [modifierCase_eq_none (by rcases hpre with rfl | rfl <;> decide)]
    rfl
  · split
    · next hrelease =>
      rw [modifierCase_eq_none hrelease]
      rfl
    · split
      · next m hcase =>
        rw [hcase, getModifier_setModifier]
        by_cases hm : key.modifier = m
        · simp [hm]
        · simp [hm, Ne.symm hm]
      · next hcase =>
        rw [hcase]
        split
        · exact getModifier_toggleLock (by cases key <;> decide)
        · split
          · exact getModifier_toggleLock (by cases key <;> decide)
          · exact getModifier_decodeAscii

/-- The codes after which the prefix stays. -/
def KeepsPrefix (code : UInt8) : Prop :=
  code = cCapsLockPressed ∨ code = cScrollLockPressed ∨ ∃ key : ModifierKey, code = key.pressedCode

theorem mCurrentPrefix_decodeKey : (k.decodeKey behind reply code).2.mCurrentPrefix = cPrefixE0 ↔
    code = cPrefixE0 ∨ KeepsPrefix code ∧ k.mCurrentPrefix = cPrefixE0 := by
  have hzero : (0 : UInt8) ≠ cPrefixE0 := by decide
  rw [decodeKey]
  split
  · next hpre =>
    have hkeeps : ¬ KeepsPrefix code := by
      rintro (rfl | rfl | ⟨key, rfl⟩)
      · revert hpre
        decide
      · revert hpre
        decide
      · revert hpre
        cases key <;> decide
    simp [hkeeps]
  · next hpre =>
    have hE0 : code ≠ cPrefixE0 := fun h => hpre (.inl h)
    rw [or_iff_right hE0]
    split
    · next hrelease =>
      have hkeeps : ¬ KeepsPrefix code := by
        rintro (rfl | rfl | ⟨key, rfl⟩)
        · exact hrelease (by decide)
        · exact hrelease (by decide)
        · exact hrelease (by cases key <;> decide)
      exact iff_of_false hzero fun h => hkeeps h.1
    · split
      · next m hcase =>
        have hkeeps : KeepsPrefix code := by
          by_contra hno
          rw [modifierCase_eq_none_iff.mpr fun key hkey => hno (.inr (.inr ⟨key, hkey⟩))] at hcase
          cases hcase
        exact (and_iff_right hkeeps).symm
      · next hcase =>
        rw [modifierCase_eq_none_iff] at hcase
        split
        · next hcaps =>
          rw [and_iff_right (.inl hcaps), toggleLock, setLED_mCurrentPrefix]
          rfl
        · next hcaps =>
          split
          · next hscroll =>
            rw [and_iff_right (.inr (.inl hscroll)), toggleLock, setLED_mCurrentPrefix]
            rfl
          · next hscroll =>
            refine iff_of_false hzero ?_
            rintro ⟨h | h | ⟨key, h⟩, -⟩
            · exact hcaps h
            · exact hscroll h
            · exact hcase key h

theorem modifierCase_eq_some_iff : k.modifierCase code = some m ↔ ∃ key : ModifierKey,
    key.modifier = m ∧ code = key.pressedCode ∧ key.CaseAt (k.mCurrentPrefix = cPrefixE0) := by
  rw [modifierCase]
  constructor
  · intro h
    by_cases hshift : code = cLeftShiftPressed ∨ code = cRightShiftPressed
    · rw [if_pos hshift] at h
      cases h
      rcases hshift with hcode | hcode
      · exact ⟨.leftShift, rfl, hcode, trivial⟩
      · exact ⟨.rightShift, rfl, hcode, trivial⟩
    · rw [if_neg hshift] at h
      split at h
      · next hcode =>
        cases h
        by_cases hpre : k.mCurrentPrefix = cPrefixE0
        · exact ⟨.rightControl, (if_pos hpre).symm, hcode, hpre⟩
        · exact ⟨.leftControl, (if_neg hpre).symm, hcode, hpre⟩
      · split at h
        · next hcode =>
          cases h
          by_cases hpre : k.mCurrentPrefix = cPrefixE0
          · exact ⟨.rightAlt, (if_pos hpre).symm, hcode, hpre⟩
          · exact ⟨.leftAlt, (if_neg hpre).symm, hcode, hpre⟩
        · cases h
  · rintro ⟨key, rfl, rfl, hat⟩
    cases key with
    | leftShift | rightShift => rfl
    | leftControl | leftAlt => exact congrArg some (if_neg hat)
    | rightControl | rightAlt => exact congrArg some (if_pos hat)

/-! ## Which bytes the driver gets right -/

/-- A byte releases the only held key with a flag. -/
def ReleasesLast (bytes : List UInt8) (b : UInt8) : Prop :=
  ∃ key, Releases key bytes b ∧ Held key bytes ∧
    ∀ key' : ModifierKey, key'.modifier = key.modifier → key' ≠ key → ¬ Held key' bytes

/-- A byte behind `E1` is taken for a key although none with its flag is held. -/
def TakenBehindE1 (bytes : List UInt8) (b : UInt8) : Prop :=
  AfterE1 bytes ∧ ∃ key, TakenFor key bytes b ∧ ¬ HeldBy key.modifier bytes

/-- A byte releases the only held key with a flag, it is taken for a key behind `E1`, or it leaves a
prefix `E0` as it is. -/
def Sticks (bytes : List UInt8) (b : UInt8) : Prop :=
  ReleasesLast bytes b ∨ TakenBehindE1 bytes b ∨ AfterE0 bytes ∧ KeepsPrefix b

theorem heldBy_concat : HeldBy m (bytes ++ [b]) ↔
    (∃ key : ModifierKey, key.modifier = m ∧ Presses key bytes b) ∨
      ∃ key : ModifierKey, key.modifier = m ∧ Held key bytes ∧ ¬ Releases key bytes b := by
  constructor
  · rintro ⟨key, hkey, h⟩
    rcases held_concat.mp h with h | h
    · exact .inl ⟨key, hkey, h⟩
    · exact .inr ⟨key, hkey, h⟩
  · rintro (⟨key, hkey, h⟩ | ⟨key, hkey, h⟩)
    · exact ⟨key, hkey, held_concat.mpr (.inl h)⟩
    · exact ⟨key, hkey, held_concat.mpr (.inr h)⟩

/-- A byte releases one key with a flag at most. -/
theorem Releases.unique (h : Releases key bytes b) (h' : Releases key' bytes b)
    (hkey : key'.modifier = key.modifier) : key' = key := by
  obtain ⟨rfl, -⟩ := h
  obtain ⟨h', -⟩ := h'
  revert h' hkey
  cases key <;> cases key' <;> decide

/-- A key that is pressed is taken for itself. -/
theorem Presses.takenFor (h : Presses key bytes b) : TakenFor key bytes b := by
  refine ⟨h.1, ?_⟩
  have hat := h.2
  cases key with
  | leftShift | rightShift => trivial
  | leftControl | leftAlt => exact hat.1
  | rightControl | rightAlt => exact hat

/-- Behind `E1` no key is pressed. -/
theorem not_presses_of_afterE1 (h : AfterE1 bytes) : ¬ Presses key bytes b := by
  rintro ⟨-, hat⟩
  have hne : bytes.getLast? ≠ some cPrefixE0 := by
    rw [show bytes.getLast? = some cPrefixE1 from h]
    decide
  cases key with
  | leftShift | rightShift | leftControl | leftAlt => exact hat.2 h
  | rightControl | rightAlt => exact hne hat

/-- Only behind a prefix a code is taken for a key that is not pressed. -/
theorem TakenFor.presses (h : TakenFor key bytes b) (hE1 : ¬ AfterE1 bytes)
    (hE0 : ¬ (AfterE0 bytes ∧ KeepsPrefix b)) : Presses key bytes b := by
  obtain ⟨rfl, hat⟩ := h
  have hno : ¬ AfterE0 bytes := fun h => hE0 ⟨h, .inr (.inr ⟨key, rfl⟩)⟩
  refine ⟨rfl, ?_⟩
  cases key with
  | leftShift | rightShift | leftControl | leftAlt => exact ⟨hno, hE1⟩
  | rightControl | rightAlt => exact hat

/-- A code of a pressed key releases none. -/
theorem TakenFor.not_releases (h : TakenFor key bytes b) : ¬ Releases key' bytes b := by
  rintro ⟨h', -⟩
  rw [h.1] at h'
  revert h'
  cases key <;> cases key' <;> decide

/-- The flags follow the keys over a byte that does not stick. -/
theorem flags_step_iff (hE0 : ¬ (AfterE0 bytes ∧ KeepsPrefix b)) : (∀ key : ModifierKey,
      ((∃ key' : ModifierKey, key'.modifier = key.modifier ∧ TakenFor key' bytes b) ∨
        HeldBy key.modifier bytes ↔ HeldBy key.modifier (bytes ++ [b]))) ↔
    ¬ ReleasesLast bytes b ∧ ¬ TakenBehindE1 bytes b := by
  constructor
  · intro h
    constructor
    · rintro ⟨key, hrelease, hheld, honly⟩
      rcases heldBy_concat.mp ((h key).mp (.inr ⟨key, rfl, hheld⟩)) with ⟨key', -, hpress⟩ | hkept
      · exact hpress.takenFor.not_releases hrelease
      · obtain ⟨key', hkey, hheld', hkeep⟩ := hkept
        by_cases heq : key' = key
        · exact hkeep (heq ▸ hrelease)
        · exact honly key' hkey heq hheld'
    · rintro ⟨hE1, key, htaken, hnone⟩
      rcases heldBy_concat.mp ((h key).mp (.inl ⟨key, rfl, htaken⟩)) with ⟨_, -, hpress⟩ | hkept
      · exact not_presses_of_afterE1 hE1 hpress
      · obtain ⟨key', hkey, hheld, -⟩ := hkept
        exact hnone ⟨key', hkey, hheld⟩
  · rintro ⟨hlast, hbehind⟩ key
    rw [heldBy_concat]
    constructor
    · rintro (⟨key', hkey, htaken⟩ | ⟨key', hkey, hheld⟩)
      · by_cases hE1 : AfterE1 bytes
        · -- the flag is set already, for a key that stays held
          by_contra hstep
          refine hbehind ⟨hE1, key', htaken, fun ⟨other, hother, hheld⟩ => hstep (.inr ?_)⟩
          exact ⟨other, hother.trans hkey, hheld, htaken.not_releases⟩
        · exact .inl ⟨key', hkey, htaken.presses hE1 hE0⟩
      · by_cases hrelease : Releases key' bytes b
        · -- another key with the flag is held, and is not released
          by_contra hstep
          refine hlast ⟨key', hrelease, hheld, fun other hother hne hheld' => hstep (.inr ?_)⟩
          exact ⟨other, hother.trans hkey, hheld', fun h' => hne (hrelease.unique h' hother)⟩
        · exact .inr ⟨key', hkey, hheld, hrelease⟩
    · rintro (⟨key', hkey, hpress⟩ | ⟨key', hkey, hheld, -⟩)
      · exact .inl ⟨key', hkey, hpress.takenFor⟩
      · exact .inr ⟨key', hkey, hheld⟩

/-- One byte. -/
theorem Follows.next_iff (h : Follows bytes k) :
    Follows (bytes ++ [b]) (k.decodeKey behind reply b).2 ↔ ¬ Sticks bytes b := by
  obtain ⟨hflags, hpre⟩ := follows_iff.mp h
  have hpress : ∀ key : ModifierKey,
      (k.decodeKey behind reply b).2.getModifier key.modifier = true ↔
      (∃ key' : ModifierKey, key'.modifier = key.modifier ∧ TakenFor key' bytes b) ∨
        HeldBy key.modifier bytes := by
    intro key
    rw [getModifier_decodeKey, Bool.or_eq_true, decide_eq_true_iff, hflags, modifierCase_eq_some_iff,
      propext hpre]
    rfl
  have hkeeps : ((k.decodeKey behind reply b).2.mCurrentPrefix = cPrefixE0 ↔
      AfterE0 (bytes ++ [b])) ↔ ¬ (AfterE0 bytes ∧ KeepsPrefix b) := by
    have hE0 : ¬ KeepsPrefix cPrefixE0 := by
      rintro (h | h | ⟨key, h⟩)
      · cases h
      · cases h
      · cases key <;> cases h
    rw [mCurrentPrefix_decodeKey, afterE0_concat, hpre, or_iff_left_iff_imp, and_comm]
    constructor
    · intro h hstale
      exact hE0 (h hstale ▸ hstale.2)
    · exact fun h hstale => absurd hstale h
  rw [follows_iff, Sticks, not_or, not_or, hkeeps, ← and_assoc]
  refine and_congr_left fun hE0 => ?_
  rw [← flags_step_iff hE0]
  exact forall_congr' fun key => by rw [hpress]

/-- Bytes from the keyboard, each with the reply to a command that it may lead to. -/
def decodeAll (behind : UInt8 → UInt8) (inputs : List (UInt8 × UInt8)) : LegacyKeyboard :=
  inputs.foldl (fun k i => (k.decodeKey behind i.2 i.1).2) new

theorem not_held_nil : ¬ Held key [] := by
  rintro ⟨pre, b, suf, heq, -⟩
  simp at heq

theorem follows_new : Follows [] new := by
  refine follows_iff.mpr ⟨fun key => iff_of_false ?_ ?_, iff_of_false ?_ ?_⟩
  · cases key <;> decide
  · exact fun ⟨_, _, h⟩ => not_held_nil h
  · decide
  · exact fun h => nomatch h

/-- The sequences of bytes after each of which the flags and the prefix are right. -/
theorem decodeKey_iff (behind : UInt8 → UInt8) (inputs : List (UInt8 × UInt8)) :
    (∀ pre suf, inputs = pre ++ suf → Follows (pre.map Prod.fst) (decodeAll behind pre)) ↔
      ∀ pre i suf, inputs = pre ++ i :: suf → ¬ Sticks (pre.map Prod.fst) i.1 := by
  constructor
  · rintro h pre i suf rfl
    have hpre := h pre (i :: suf) rfl
    have hnext := h (pre ++ [i]) suf (by simp)
    rw [decodeAll, List.foldl_append, List.map_append] at hnext
    exact hpre.next_iff.mp hnext
  · intro h pre
    induction pre using List.reverseRecOn with
    | nil => exact fun suf _ => follows_new
    | append_singleton pre i ih =>
      rintro suf rfl
      have hpre := ih (i :: suf) (by simp)
      rw [decodeAll, List.foldl_append, List.map_append]
      exact hpre.next_iff.mpr (h pre i suf (by simp))

/-- Shift is pressed and released. -/
theorem decodeKey_shift_sticks : ¬ ∀ (behind : UInt8 → UInt8) (inputs : List (UInt8 × UInt8)),
    ∀ pre suf, inputs = pre ++ suf → Follows (pre.map Prod.fst) (decodeAll behind pre) := by
  intro h
  have hfollows := h (fun _ => 0) [(0x2A, 0xfa), (0xAA, 0xfa)] _ [] (List.append_nil _).symm
  have hpress : ∀ key : ModifierKey, (0xAA : UInt8) ≠ key.pressedCode := by
    intro key
    cases key <;> decide
  rcases hfollows.shift.mp (by decide) with hleft | hright
  · rcases held_concat.mp (show Held .leftShift ([0x2A] ++ [0xAA]) from hleft) with
      ⟨hcode, -⟩ | ⟨-, hkeep⟩
    · exact hpress _ hcode
    · exact hkeep ⟨rfl, by decide, by decide⟩
  · rcases held_concat.mp (show Held .rightShift ([0x2A] ++ [0xAA]) from hright) with
      ⟨hcode, -⟩ | ⟨hheld, -⟩
    · exact hpress _ hcode
    · rcases held_concat.mp (show Held .rightShift ([] ++ [0x2A]) from hheld) with
        ⟨hcode, -⟩ | ⟨hheld, -⟩
      · revert hcode
        decide
      · exact not_held_nil hheld

end LegacyKeyboard

end CyPhOS
