import CyPhOS.Lib.RingSearch
import Mathlib.Logic.Function.Basic

/-! # The message buffer of the CAN driver

A `CanBuffer` has ten lines. `enterMsg` looks for a free line behind the one that was written last,
and `reserve_free` says that it finds one if there is one.
-/

namespace CyPhOS

open RingSearch

structure CanBufferMsg where
  id : Nat
  msg : Nat → UInt8
  dataLength : Nat
  isUsed : Bool

/-- The message that a line holds. -/
def CanBufferMsg.data (line : CanBufferMsg) : List UInt8 := (List.range line.dataLength).map line.msg

/-- `cLineCount` lines. -/
structure CanBuffer where
  mWritePosition : Fin 10
  mBuffer : Fin 10 → CanBufferMsg

namespace CanBuffer

/-- In zeroed storage. -/
def new : CanBuffer := ⟨0, fun _ => ⟨0, fun _ => 0, 0, false⟩⟩

variable {b : CanBuffer} {lineNum n : Fin 10}

/-- The search of `enterMsg`, with the number of rounds after which it gives up. -/
def reserveFrom (b : CanBuffer) : Nat → Fin 10 → Option (Fin 10)
  | 0, _ => none
  | rounds + 1, lineNum =>
    if (b.mBuffer lineNum).isUsed = true ∧ lineNum ≠ b.mWritePosition then
      b.reserveFrom rounds (lineNum + 1)
    else some lineNum

def reserve (b : CanBuffer) : Option (Fin 10) := b.reserveFrom 12 (b.mWritePosition + 1)

/-- The loop that copies the message. -/
def copyMsg (message msg : Nat → UInt8) (dataLength : Nat) : Nat → UInt8 := fun i =>
  if i < dataLength then message i else msg i

/-- The line number, or `none` for -1. -/
def enterMsg (b : CanBuffer) (message : Nat → UInt8) (dataLength messageID : Nat) :
    Option (Fin 10) × CanBuffer :=
  if dataLength > 8 then (none, b)
  else
    match b.reserve with
    | none => (none, b)
    | some lineNum => (some lineNum,
      { mWritePosition := lineNum
        mBuffer := Function.update b.mBuffer lineNum
          { id := messageID
            msg := copyMsg message (b.mBuffer lineNum).msg dataLength
            dataLength
            isUsed := true } })

def freeLine (b : CanBuffer) (lineNum : Fin 10) : CanBuffer :=
  { b with mBuffer := Function.update b.mBuffer lineNum { b.mBuffer lineNum with isUsed := false } }

/-- What `readMsg` hands out: the identifier, the length and the caller's buffer. -/
structure MsgRead where
  messageID : Nat
  dataLength : Nat
  message : Nat → UInt8

/-- `none` for -1. -/
def readMsg (b : CanBuffer) (lineNum : Nat) (message : Nat → UInt8) : Option MsgRead × CanBuffer :=
  if h : lineNum < 10 then
    let line := b.mBuffer ⟨lineNum, h⟩
    if line.isUsed then
      (some ⟨line.id, line.dataLength, copyMsg line.msg message line.dataLength⟩,
        b.freeLine ⟨lineNum, h⟩)
    else (none, b)
  else (none, b)

/-- The loop of `removeMsgWithID` over the lines that are left. -/
def removeFrom (id : Nat) : List (Fin 10) → CanBuffer → Nat → Nat × CanBuffer
  | [], b, counter => (counter, b)
  | i :: lines, b, counter =>
    if (b.mBuffer i).isUsed = true ∧ (b.mBuffer i).id = id then
      removeFrom id lines (b.freeLine i) (counter + 1)
    else removeFrom id lines b counter

/-- The number of lines that have been freed. -/
def removeMsgWithID (b : CanBuffer) (id : Nat) : Nat × CanBuffer :=
  removeFrom id (List.finRange 10) b 0

/-! ## Reserving a line -/

theorem reserveFrom_eq_search (rounds : Nat) : b.reserveFrom rounds lineNum =
    search (fun n => (b.mBuffer n).isUsed) b.mWritePosition rounds lineNum := by
  induction rounds generalizing lineNum with
  | zero => rfl
  | succ rounds ih => rw [reserveFrom, search, ih]

theorem reserve_eq_search : b.reserve =
    search (fun n => (b.mBuffer n).isUsed) b.mWritePosition 12 (b.mWritePosition + 1) :=
  reserveFrom_eq_search 12

/-- The limit on the rounds is never reached. -/
theorem reserve_isSome (b : CanBuffer) : ∃ n, b.reserve = some n := by
  rw [reserve_eq_search]
  exact search_isSome (by decide)

theorem reserve_free_iff (h : b.reserve = some n) :
    (b.mBuffer n).isUsed = false ↔ ∃ i, (b.mBuffer i).isUsed = false := by
  rw [reserve_eq_search] at h
  exact search_free_iff (by decide) h

/-- If there is a free line the search ends at one. -/
theorem reserve_free (hfree : ∃ n, (b.mBuffer n).isUsed = false) :
    ∃ n, b.reserve = some n ∧ (b.mBuffer n).isUsed = false := by
  obtain ⟨n, hn⟩ := b.reserve_isSome
  exact ⟨n, hn, (reserve_free_iff hn).mpr hfree⟩

theorem data_copyMsg (message msg : Nat → UInt8) (dataLength : Nat) :
    (List.range dataLength).map (copyMsg message msg dataLength) =
      (List.range dataLength).map message :=
  List.map_congr_left fun _ hi => if_pos (List.mem_range.mp hi)

theorem enterMsg_eq (message : Nat → UInt8) (messageID : Nat) {dataLength : Nat}
    (hlength : dataLength ≤ 8) (h : b.reserve = some n) :
    b.enterMsg message dataLength messageID = (some n, ⟨n, Function.update b.mBuffer n
      ⟨messageID, copyMsg message (b.mBuffer n).msg dataLength, dataLength, true⟩⟩) := by
  rw [enterMsg, if_neg (by omega), h]

theorem enterMsg_long (message : Nat → UInt8) (messageID : Nat) {dataLength : Nat}
    (hlength : 8 < dataLength) : b.enterMsg message dataLength messageID = (none, b) := by
  rw [enterMsg, if_pos hlength]

/-- A message of at most eight bytes is entered into a free line, and nothing else changes. -/
theorem enterMsg_free (message : Nat → UInt8) (messageID : Nat) {dataLength : Nat}
    (hfree : ∃ n, (b.mBuffer n).isUsed = false) (hlength : dataLength ≤ 8) :
    ∃ n line, b.enterMsg message dataLength messageID =
        (some n, ⟨n, Function.update b.mBuffer n line⟩) ∧
      (b.mBuffer n).isUsed = false ∧ line.isUsed = true ∧ line.id = messageID ∧
      line.data = (List.range dataLength).map message := by
  obtain ⟨n, hreserve, hn⟩ := reserve_free hfree
  exact ⟨n, _, enterMsg_eq message messageID hlength hreserve, hn, rfl, rfl, data_copyMsg ..⟩

end CanBuffer

end CyPhOS
