import Mathlib.Data.List.Induction
import Mathlib.Logic.Function.Basic

/-! # The text screen

`print` keeps its position twice, as coordinates and as a pointer, and a backspace moves the
coordinates only. The two agree as long as each backspace comes at the first column, where it does
nothing (`print_iff`).
-/

namespace CyPhOS

namespace CGAScreen

def cRows : Nat := 25

def cColumns : Nat := 80

def cCGAStart : Nat := 0xb8000

/-- Light grey on black. -/
def cStandardAttribute : UInt8 := (0x0 : UInt8) <<< 4 ||| 0x7

def newline : UInt8 := 0x0A

def backspace : UInt8 := 0x08

def space : UInt8 := 0x20

/-! ## The cursor -/

/-- The controller behind the index port and the data port. -/
structure Controller where
  index : UInt8
  registers : UInt8 → UInt8

namespace Controller

variable (c : Controller) (value : UInt8)

/-- `mIndexPort.writeByte` -/
def writeIndex : Controller := { c with index := value }

/-- `mDataPort.writeByte` -/
def writeData : Controller := { c with registers := Function.update c.registers c.index value }

/-- `mDataPort.readByte` -/
def readData : UInt8 := c.registers c.index

/-- Also returns `x` and `y`. -/
def getPosition : (Nat × Nat) × Controller :=
  let c := c.writeIndex 14
  let high := c.readData
  let c := c.writeIndex 15
  let low := c.readData
  let pos := (high &&& 0x3f).toNat <<< 8 ||| low.toNat
  ((pos % cColumns, pos / cColumns), c)

def setPosition (x y : Nat) : Controller :=
  if cColumns ≤ x ∨ cRows < y then c
  else
    let pos := y * cColumns + x
    let low := pos &&& 0xff
    let high := (pos &&& 0x3f00) >>> 8
    (((c.writeIndex 14).writeData (.ofNat high)).writeIndex 15).writeData (.ofNat low)

end Controller

/-! ## The frame buffer -/

/-- Memory, and the addresses that have been written to. -/
structure Video where
  memory : Nat → UInt8
  written : List Nat

namespace Video

variable (v : Video)

def store (a : Nat) (value : UInt8) : Video where
  memory := Function.update v.memory a value
  written := v.written ++ [a]

/-- The bytes of a `long`. -/
def loadLong (a : Nat) : List UInt8 := (List.range 8).map fun k => v.memory (a + k)

def storeBytes : Video → Nat → List UInt8 → Video
  | v, _, [] => v
  | v, a, byte :: bytes => (v.store a byte).storeBytes (a + 1) bytes

end Video

/-- The value that fills a new line: the upper half of the `long` is zero. -/
def blank : List UInt8 := [space, cStandardAttribute, space, cStandardAttribute, 0, 0, 0, 0]

/-- `while (counter > 0)`, with the value that goes to `dstptr`. -/
def fill (value : Video → Nat → List UInt8) : Nat → Nat → Nat → Video → Video
  | 0, _, _, v => v
  | counter + 1, dstptr, srcptr, v =>
    fill value counter (dstptr + 8) (srcptr + 8) (v.storeBytes dstptr (value v srcptr))

def scrollup (v : Video) : Video :=
  let srcptr := cCGAStart + cColumns * 2
  let counter := (cRows - 1) * cColumns * 2 / 8
  let v := fill Video.loadLong counter cCGAStart srcptr v
  let dstptr := cCGAStart + 8 * counter
  let counter := cColumns * 2 / 8
  fill (fun _ _ => blank) counter dstptr srcptr v

/-! ## Printing -/

/-- The local variables of `print`. -/
structure Cursor where
  x : Nat
  y : Nat
  pos : Nat

/-- `x` and `y` are new, and `pos` follows. -/
def Cursor.at (x y : Nat) : Cursor := ⟨x, y, cCGAStart + (y * cColumns + x) * 2⟩

/-- The `switch`. -/
def putChar (attrib char : UInt8) : Cursor × Video → Cursor × Video
  | (cursor, v) =>
    if char = newline then (.at 0 (cursor.y + 1), v)
    else if char = backspace then
      (if 0 < cursor.x then { cursor with x := cursor.x - 1 } else cursor, v)
    else
      let v := (v.store cursor.pos char).store (cursor.pos + 1) attrib
      if cColumns ≤ cursor.x + 1 then (.at 0 (cursor.y + 1), v)
      else (⟨cursor.x + 1, cursor.y, cursor.pos + 2⟩, v)

/-- The part of the body of the loop that follows the `switch`. -/
def scroll : Cursor × Video → Cursor × Video
  | (cursor, v) =>
    if cRows ≤ cursor.y then (.at cursor.x (cursor.y - 1), scrollup v) else (cursor, v)

def printChar (attrib : UInt8) (s : Cursor × Video) (char : UInt8) : Cursor × Video :=
  scroll (putChar attrib char s)

end CGAScreen

open CGAScreen in
/-- The screen, and the memory that has its frame buffer. -/
structure CGAScreen where
  controller : Controller
  memory : Nat → UInt8

namespace CGAScreen

/-- Where `print` is after these characters. -/
def printing (screen : CGAScreen) (attrib : UInt8) (string : List UInt8) : Cursor × Video :=
  let (x, y) := screen.controller.getPosition.1
  string.foldl (printChar attrib) (.at x y, ⟨screen.memory, []⟩)

/-- `string` has the `n` characters that are printed. -/
def print (screen : CGAScreen) (attrib : UInt8) (string : List UInt8) : CGAScreen :=
  let (cursor, v) := screen.printing attrib string
  ⟨screen.controller.getPosition.2.setPosition cursor.x cursor.y, v.memory⟩

/-! ## What is written -/

variable {v : Video} {a n dstptr srcptr x y : Nat} {attrib char : UInt8} {cursor : Cursor}

/-- The memory of the frame buffer. -/
def InFrame (a : Nat) : Prop := cCGAStart ≤ a ∧ a < cCGAStart + 2 * (cRows * cColumns)

/-- What has been written is in the frame buffer. -/
def Video.Contained (v : Video) : Prop := ∀ a ∈ v.written, InFrame a

theorem Video.Contained.store {value : UInt8} (h : v.Contained) (ha : InFrame a) :
    (v.store a value).Contained := by
  intro b hb
  rcases List.mem_append.mp hb with hb | hb
  · exact h b hb
  · exact List.mem_singleton.mp hb ▸ ha

theorem Video.Contained.storeBytes {bytes : List UInt8} (h : v.Contained)
    (ha : ∀ k < bytes.length, InFrame (a + k)) : (v.storeBytes a bytes).Contained := by
  induction bytes generalizing v a with
  | nil => exact h
  | cons byte bytes ih =>
    refine ih (h.store (ha 0 (Nat.succ_pos _))) fun k hk => ?_
    have := ha (k + 1) (Nat.succ_lt_succ hk)
    rwa [Nat.add_assoc, Nat.add_comm 1 k]

theorem Video.Contained.fill {value : Video → Nat → List UInt8} (h : v.Contained)
    (hvalue : ∀ v srcptr, (value v srcptr).length = 8)
    (ha : ∀ k < 8 * n, InFrame (dstptr + k)) : (fill value n dstptr srcptr v).Contained := by
  induction n generalizing v dstptr srcptr with
  | zero => exact h
  | succ n ih =>
    refine ih (h.storeBytes fun k hk => ha k ?_) fun k hk => ?_
    · have := hvalue v srcptr
      omega
    · have := ha (8 + k) (by omega)
      rwa [← Nat.add_assoc] at this

theorem Video.Contained.scrollup (h : v.Contained) : (scrollup v).Contained := by
  refine (h.fill (fun v srcptr => ?_) fun k hk => ?_).fill (fun _ _ => rfl) fun k hk => ?_
  · rw [loadLong, List.length_map, List.length_range]
  · simp only [InFrame, cCGAStart, cRows, cColumns] at *
    omega
  · simp only [InFrame, cCGAStart, cRows, cColumns] at *
    omega

/-! ## The two positions -/

/-- Pointer and coordinates agree and are inside the screen, and so is what has been written. -/
structure InStep (s : Cursor × Video) : Prop where
  pos : s.1.pos = cCGAStart + 2 * (s.1.y * cColumns + s.1.x)
  x : s.1.x < cColumns
  y : s.1.y < cRows
  contained : s.2.Contained

theorem inStep_at (hx : x < cColumns) (hy : y < cRows) (hv : v.Contained) :
    InStep (.at x y, v) :=
  ⟨by rw [Cursor.at, Nat.mul_comm 2], hx, hy, hv⟩

theorem InStep.inFrame (h : InStep (cursor, v)) :
    InFrame cursor.pos ∧ InFrame (cursor.pos + 1) := by
  obtain ⟨hpos, hx, hy, -⟩ := h
  simp only [InFrame, cCGAStart, cRows, cColumns] at *
  omega

theorem scroll_of_lt (hy : cursor.y < cRows) : scroll (cursor, v) = (cursor, v) :=
  if_neg (Nat.not_le.mpr hy)

/-- A new line is below the last one, or on the screen. -/
theorem scroll_newline (hy : y < cRows) (hv : v.Contained) :
    InStep (scroll (.at 0 (y + 1), v)) ∧ (scroll (.at 0 (y + 1), v)).1.x = 0 := by
  have hx : 0 < cColumns := by decide
  rw [scroll]
  split
  · exact ⟨inStep_at hx hy hv.scrollup, rfl⟩
  · next hrow => exact ⟨inStep_at hx (Nat.lt_of_not_le hrow) hv, rfl⟩

/-- The column after a character. -/
def nextColumn (x : Nat) (char : UInt8) : Nat :=
  if char = newline then 0 else if char = backspace then x else (x + 1) % cColumns

/-- One character, if it is not a backspace that moves the coordinates. -/
theorem InStep.printChar (attrib : UInt8) (h : InStep (cursor, v))
    (hchar : char = backspace → cursor.x = 0) :
    InStep (CGAScreen.printChar attrib (cursor, v) char) ∧
      (CGAScreen.printChar attrib (cursor, v) char).1.x = nextColumn cursor.x char := by
  have hx : cursor.x < cColumns := h.x
  have hy : cursor.y < cRows := h.y
  rw [CGAScreen.printChar, putChar, nextColumn]
  by_cases hnew : char = newline
  · rw [if_pos hnew, if_pos hnew]
    exact scroll_newline hy h.contained
  · rw [if_neg hnew, if_neg hnew]
    by_cases hback : char = backspace
    · rw [if_pos hback, if_pos hback, if_neg (by rw [hchar hback]; omega), scroll_of_lt hy]
      exact ⟨h, rfl⟩
    · have hv : ((v.store cursor.pos char).store (cursor.pos + 1) attrib).Contained :=
        (h.contained.store h.inFrame.1).store h.inFrame.2
      rw [if_neg hback, if_neg hback]
      dsimp only
      split
      · next hend =>
        rw [show cursor.x + 1 = cColumns by omega, Nat.mod_self]
        exact scroll_newline hy hv
      · next hmore =>
        have hpos : cursor.pos = cCGAStart + 2 * (cursor.y * cColumns + cursor.x) := h.pos
        rw [scroll, if_neg (Nat.not_le.mpr hy), Nat.mod_eq_of_lt (Nat.lt_of_not_le hmore)]
        refine ⟨⟨?_, Nat.lt_of_not_le hmore, hy, hv⟩, rfl⟩
        dsimp only
        rw [hpos]
        omega

/-- A backspace anywhere else moves the coordinates away from the pointer. -/
theorem InStep.backspace (h : InStep (cursor, v)) (hx : cursor.x ≠ 0) :
    ¬ InStep (CGAScreen.printChar attrib (cursor, v) backspace) := by
  intro h'
  have hpos : cursor.pos = cCGAStart + 2 * (cursor.y * cColumns + cursor.x) := h.pos
  rw [CGAScreen.printChar, putChar, if_neg (by decide), if_pos rfl, if_pos (Nat.pos_of_ne_zero hx),
    scroll, if_neg (Nat.not_le.mpr h.y)] at h'
  have hpos' : cursor.pos = cCGAStart + 2 * (cursor.y * cColumns + (cursor.x - 1)) := h'.pos
  omega

/-! ## Strings -/

/-- How many characters there are on the line behind a string that starts at column `x`, where a
line does not end at the last column. -/
def lineOffset (x : Nat) (string : List UInt8) : Nat :=
  (if newline ∈ string then 0 else x) +
    (string.reverse.takeWhile (· ≠ newline)).countP (· ≠ backspace)

theorem lineOffset_concat {string : List UInt8} : lineOffset x (string ++ [char]) =
    if char = newline then 0
    else if char = backspace then lineOffset x string else lineOffset x string + 1 := by
  by_cases hnew : char = newline
  · simp [lineOffset, hnew]
  · have hmem : newline ∈ string ++ [char] ↔ newline ∈ string := by
      simp [Ne.symm hnew]
    rw [if_neg hnew, lineOffset, lineOffset, if_congr hmem rfl rfl, List.reverse_concat,
      List.takeWhile_cons_of_pos (by simpa using hnew), List.countP_cons]
    by_cases hback : char = backspace
    · simp [hback]
    · simp [hback, Nat.add_assoc]

/-- Every backspace comes at the first column. -/
def BackspacesAtStart (x : Nat) (string : List UInt8) : Prop :=
  ∀ pre suf, string = pre ++ backspace :: suf → cColumns ∣ lineOffset x pre

theorem backspacesAtStart_concat {string : List UInt8} :
    BackspacesAtStart x (string ++ [char]) ↔
      BackspacesAtStart x string ∧ (char = backspace → cColumns ∣ lineOffset x string) := by
  constructor
  · intro h
    refine ⟨fun pre suf heq => h pre (suf ++ [char]) (by simp [heq]), ?_⟩
    rintro rfl
    exact h string [] rfl
  · rintro ⟨hinit, hlast⟩ pre suf heq
    rcases List.eq_nil_or_concat suf with rfl | ⟨suf, last, rfl⟩
    · obtain ⟨rfl, hchar⟩ := List.append_inj' heq rfl
      exact hlast (List.singleton_inj.mp hchar)
    · rw [List.concat_eq_append, ← List.cons_append, ← List.append_assoc] at heq
      exact hinit pre suf (List.append_inj' heq rfl).1

theorem InStep.foldl (attrib : UInt8) {s : Cursor × Video} {string : List UInt8} (h : InStep s)
    (hstring : BackspacesAtStart s.1.x string) :
    InStep (string.foldl (CGAScreen.printChar attrib) s) ∧
      (string.foldl (CGAScreen.printChar attrib) s).1.x = lineOffset s.1.x string % cColumns := by
  induction string using List.reverseRecOn with
  | nil => exact ⟨h, (Nat.mod_eq_of_lt h.x).symm⟩
  | append_singleton string char ih =>
    obtain ⟨hinit, hlast⟩ := backspacesAtStart_concat.mp hstring
    obtain ⟨hs, hx⟩ := ih hinit
    rw [List.foldl_append, List.foldl_cons, List.foldl_nil]
    obtain ⟨hs', hx'⟩ := hs.printChar attrib fun hchar =>
      hx.trans (Nat.mod_eq_zero_of_dvd (hlast hchar))
    refine ⟨hs', hx'.trans ?_⟩
    rw [hx, nextColumn, lineOffset_concat]
    split
    · rfl
    · split
      · rfl
      · exact Nat.mod_add_mod ..

/-- The positions agree after every character if each backspace comes at the first column. -/
theorem InStep.foldl_iff (attrib : UInt8) {s : Cursor × Video} {string : List UInt8}
    (h : InStep s) :
    (∀ pre suf, string = pre ++ suf → InStep (pre.foldl (CGAScreen.printChar attrib) s)) ↔
      BackspacesAtStart s.1.x string := by
  constructor
  · intro hall
    induction string using List.reverseRecOn with
    | nil => exact fun pre suf heq => by simp at heq
    | append_singleton string char ih =>
      have hinit := ih fun pre suf heq => hall pre (suf ++ [char]) (by simp [heq])
      obtain ⟨hs, hx⟩ := h.foldl attrib hinit
      refine backspacesAtStart_concat.mpr ⟨hinit, ?_⟩
      rintro rfl
      refine Nat.dvd_of_mod_eq_zero (hx.symm.trans (by_contra fun hne => ?_))
      have hnext := hall (string ++ [CGAScreen.backspace]) [] (by simp)
      rw [List.foldl_append] at hnext
      exact hs.backspace hne hnext
  · rintro hstring pre suf rfl
    exact (h.foldl attrib fun pre' suf' heq => hstring pre' (suf' ++ suf) (by simp [heq])).1

/-- The cursor that the controller holds. -/
def Controller.position (c : Controller) : Nat :=
  (c.registers 14 &&& 0x3f).toNat <<< 8 ||| (c.registers 15).toNat

/-- A position on the screen fits in the two registers. -/
theorem position_split {pos : Nat} (hpos : pos < cRows * cColumns) :
    (UInt8.ofNat ((pos &&& 0x3f00) >>> 8) &&& 0x3f).toNat <<< 8 |||
      (UInt8.ofNat (pos &&& 0xff)).toNat = pos := by
  have hbound : pos < 2000 := hpos
  have hhigh : (pos &&& 0x3f00) >>> 8 = pos / 256 := by
    rw [Nat.shiftRight_and_distrib, Nat.shiftRight_eq_div_pow]
    exact (Nat.and_two_pow_sub_one_eq_mod (pos / 256) 6).trans (Nat.mod_eq_of_lt (by omega))
  have hlow : pos &&& 0xff = pos % 256 := Nat.and_two_pow_sub_one_eq_mod pos 8
  have hregister : (UInt8.ofNat (pos / 256) &&& 0x3f).toNat = pos / 256 := by
    rw [UInt8.toNat_and, UInt8.toNat_ofNat', Nat.mod_eq_of_lt (by omega)]
    exact (Nat.and_two_pow_sub_one_eq_mod (pos / 256) 6).trans (Nat.mod_eq_of_lt (by omega))
  rw [hhigh, hlow, hregister, UInt8.toNat_ofNat', Nat.mod_mod,
    ← Nat.shiftLeft_add_eq_or_of_lt (Nat.mod_lt _ (by decide)), Nat.shiftLeft_eq]
  omega

theorem Controller.position_setPosition {c : Controller} (hx : x < cColumns) (hy : y < cRows) :
    (c.setPosition x y).position < cRows * cColumns := by
  have hpos : y * cColumns + x < cRows * cColumns := by
    simp only [cRows, cColumns] at *
    omega
  rw [setPosition, if_neg (by omega)]
  exact lt_of_eq_of_lt (position_split hpos) hpos

/-- During `print` the pointer and the coordinates agree, and everything stays on the screen. -/
structure StaysOnScreen (screen : CGAScreen) (attrib : UInt8) (string : List UInt8) : Prop where
  inStep : ∀ pre suf, string = pre ++ suf → InStep (screen.printing attrib pre)
  position : (screen.print attrib string).controller.position < cRows * cColumns

/-- `print` stays on the screen if each backspace comes at the first column. -/
theorem print_iff (screen : CGAScreen) (attrib : UInt8) (string : List UInt8)
    (hcursor : screen.controller.position < cRows * cColumns) :
    StaysOnScreen screen attrib string ↔
      BackspacesAtStart (screen.controller.position % cColumns) string := by
  have hstart : InStep (screen.printing attrib []) :=
    inStep_at (Nat.mod_lt _ (by decide)) (Nat.div_lt_of_lt_mul (by rwa [Nat.mul_comm]))
      fun _ h => nomatch h
  have hiff : (∀ pre suf, string = pre ++ suf → InStep (screen.printing attrib pre)) ↔
      BackspacesAtStart (screen.controller.position % cColumns) string := hstart.foldl_iff attrib
  refine ⟨fun h => hiff.mp h.inStep, fun h => ⟨hiff.mpr h, ?_⟩⟩
  have hend := (hstart.foldl attrib h).1
  exact Controller.position_setPosition hend.x hend.y

theorem print_iff_newline :
    StaysOnScreen ⟨⟨0, fun _ => 0⟩, fun _ => 0⟩ 15 [0x41, newline, backspace] ↔
      BackspacesAtStart 0 [0x41, newline, backspace] :=
  print_iff ⟨⟨0, fun _ => 0⟩, fun _ => 0⟩ 15 [0x41, newline, backspace] (by decide)

/-- A backspace behind a character. -/
theorem print_backspace_drifts :
    ¬ ∀ (screen : CGAScreen) (attrib : UInt8) (string : List UInt8),
      screen.controller.position < cRows * cColumns → StaysOnScreen screen attrib string := by
  intro h
  have hpos := ((h ⟨⟨0, fun _ => 0⟩, fun _ => 0⟩ 15 [0x41, backspace] (by decide)).inStep
    [0x41, backspace] [] rfl).pos
  revert hpos
  decide

end CGAScreen

end CyPhOS
