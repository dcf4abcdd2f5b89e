import CyPhOS.Common.OutputStream
import Mathlib.Data.BitVec

/-! # The buffer of the output stream

The members of `OutputStream` as they are in memory: an array and a position in it. A character that
would be stored behind the array has no result. This does not happen (`InBuffer` is kept by every
call), and the memory is that of the stream of lists in `OutputStream` (`putc_stream`), so no
character is lost or written twice (`output_conserved`).
-/

namespace CyPhOS

open OutputStream (cBUFFER_SIZE)

structure StreamBuffer where
  mCharBuffer : Vector Char cBUFFER_SIZE
  mBufferPosition : BitVec 32
  /-- The blocks that the device has been given. -/
  blocks : List (List Char)

namespace StreamBuffer

/-- The constructor does not touch the array. -/
def new (mCharBuffer : Vector Char cBUFFER_SIZE) : StreamBuffer := ⟨mCharBuffer, 0, []⟩

/-- The characters in front of the position. -/
def pending (b : StreamBuffer) : List Char := b.mCharBuffer.toList.take b.mBufferPosition.toNat

/-- All the devices print the array up to the position. -/
def writeToDevice (b : StreamBuffer) : StreamBuffer := { b with blocks := b.blocks ++ [b.pending] }

def flush (b : StreamBuffer) : StreamBuffer := { b.writeToDevice with mBufferPosition := 0 }

/-- `mCharBuffer[mBufferPosition++] = c` -/
def store (b : StreamBuffer) (c : Char) (h : b.mBufferPosition.toNat < cBUFFER_SIZE) :
    StreamBuffer :=
  { b with
    mCharBuffer := b.mCharBuffer.set b.mBufferPosition.toNat c
    mBufferPosition := b.mBufferPosition + 1 }

def putc (b : StreamBuffer) (c : Char) : Option StreamBuffer :=
  if h : b.mBufferPosition.toNat < cBUFFER_SIZE then
    let b := b.store c h
    if b.mBufferPosition = BitVec.ofNat 32 cBUFFER_SIZE ∨ c = '\n' then
      some { b.flush with mBufferPosition := 0 }
    else some b
  else none

inductive Call
  | putc (c : Char)
  | flush

def Call.apply (b : StreamBuffer) : Call → Option StreamBuffer
  | putc c => b.putc c
  | flush => some b.flush

/-- The character that is written by a call. -/
def Call.char : Call → Option Char
  | putc c => some c
  | flush => none

/-! ## The stream of the memory -/

/-- There is room for one character more. -/
def InBuffer (b : StreamBuffer) : Prop := b.mBufferPosition.toNat < cBUFFER_SIZE

/-- The stream that the memory stands for. -/
def stream (b : StreamBuffer) (mBase : Base) : OutputStream := ⟨mBase, b.pending, b.blocks.flatten⟩

variable {b b' : StreamBuffer} {c : Char} {mBase : Base}

theorem length_pending (h : b.InBuffer) : b.pending.length = b.mBufferPosition.toNat := by
  rw [pending, List.length_take, Vector.length_toList]
  exact Nat.min_eq_left h.le

theorem flush_stream : b.flush.stream mBase = (b.stream mBase).flush := by
  simp [stream, flush, writeToDevice, pending, OutputStream.flush]

theorem inBuffer_flush : b.flush.InBuffer := by
  have hzero : (0 : BitVec 32).toNat < cBUFFER_SIZE := by decide
  exact hzero

theorem store_position (h : b.mBufferPosition.toNat < cBUFFER_SIZE) :
    (b.store c h).mBufferPosition.toNat = b.mBufferPosition.toNat + 1 := by
  have hlt : b.mBufferPosition.toNat < 256 := h
  have hsucc : (b.mBufferPosition + 1).toNat = b.mBufferPosition.toNat + 1 := by bv_omega
  exact hsucc

/-- The character comes behind those that are there. -/
theorem store_pending (h : b.mBufferPosition.toNat < cBUFFER_SIZE) :
    (b.store c h).pending = b.pending ++ [c] := by
  have hlength : b.mBufferPosition.toNat < b.mCharBuffer.toList.length := by
    rw [Vector.length_toList]
    exact h
  rw [pending, store_position h, store, Vector.toList_set, List.take_add_one,
    List.take_set_of_le (Nat.le_refl _), List.getElem?_set_self hlength]
  rfl

/-- The position is behind the array when the character was the last one. -/
theorem store_full_iff (h : b.mBufferPosition.toNat < cBUFFER_SIZE) :
    (b.store c h).mBufferPosition = BitVec.ofNat 32 cBUFFER_SIZE ↔
      b.pending.length + 1 = cBUFFER_SIZE := by
  rw [length_pending h, ← store_position h, ← BitVec.toNat_inj]
  rfl

theorem putc_stream (h : b.InBuffer) (mBase : Base) (c : Char) :
    ∃ b', b.putc c = some b' ∧ b'.InBuffer ∧ b'.stream mBase = (b.stream mBase).putc c := by
  have hstream : (b.store c h).stream mBase =
      { b.stream mBase with mCharBuffer := b.pending ++ [c] } := by
    rw [stream, store_pending h]
    rfl
  have hiff : ((b.store c h).mBufferPosition = BitVec.ofNat 32 cBUFFER_SIZE ∨ c = '\n') ↔
      ((b.stream mBase).mCharBuffer.length + 1 = cBUFFER_SIZE ∨ c = '\n') :=
    or_congr (store_full_iff h) Iff.rfl
  rw [putc, dif_pos (show b.mBufferPosition.toNat < cBUFFER_SIZE from h), OutputStream.putc]
  by_cases hflush : (b.store c h).mBufferPosition = BitVec.ofNat 32 cBUFFER_SIZE ∨ c = '\n'
  · refine ⟨(b.store c h).flush, if_pos hflush, inBuffer_flush, ?_⟩
    rw [if_pos (hiff.mp hflush), flush_stream, hstream]
    rfl
  · refine ⟨b.store c h, if_neg hflush, ?_, ?_⟩
    · -- a full array would have been flushed
      have hne := mt (store_full_iff (c := c) h).mpr fun hfull => hflush (.inl hfull)
      rw [length_pending h] at hne
      rw [InBuffer, store_position h]
      exact Nat.lt_of_le_of_ne h hne
    · rw [if_neg (mt hiff.mpr hflush), hstream]
      rfl

theorem new_inBuffer (mCharBuffer : Vector Char cBUFFER_SIZE) : (new mCharBuffer).InBuffer := by
  have hzero : (0 : BitVec 32).toNat < cBUFFER_SIZE := by decide
  exact hzero

theorem apply_written (h : b.InBuffer) (mBase : Base) (call : Call) :
    ∃ b', call.apply b = some b' ∧ b'.InBuffer ∧
      (b'.stream mBase).written = (b.stream mBase).written ++ call.char.toList := by
  cases call with
  | putc c =>
    obtain ⟨b', hputc, hin, hstream⟩ := putc_stream h mBase c
    exact ⟨b', hputc, hin, by rw [hstream, OutputStream.putc_written]; rfl⟩
  | flush =>
    refine ⟨b.flush, rfl, inBuffer_flush, ?_⟩
    rw [flush_stream]
    simp [OutputStream.flush, OutputStream.written, Call.char]

theorem foldlM_written (h : b.InBuffer) (mBase : Base) (calls : List Call) :
    ∃ b', calls.foldlM Call.apply b = some b' ∧ b'.InBuffer ∧
      (b'.stream mBase).written = (b.stream mBase).written ++ calls.filterMap Call.char := by
  induction calls generalizing b with
  | nil => exact ⟨b, rfl, h, (List.append_nil _).symm⟩
  | cons call calls ih =>
    obtain ⟨b₁, hcall, hin₁, hwritten₁⟩ := apply_written h mBase call
    obtain ⟨b', hcalls, hin, hwritten⟩ := ih hin₁
    refine ⟨b', ?_, hin, ?_⟩
    · rw [List.foldlM_cons, hcall]
      exact hcalls
    · rw [hwritten, hwritten₁, List.append_assoc]
      congr 1
      cases call <;> rfl

/-- Every character is stored within the array, and is in one block or still in the array. -/
theorem output_conserved (mCharBuffer : Vector Char cBUFFER_SIZE) (calls : List Call) :
    ∃ b, calls.foldlM Call.apply (new mCharBuffer) = some b ∧
      b.mBufferPosition.toNat < cBUFFER_SIZE ∧
      b.blocks.flatten ++ b.pending = calls.filterMap Call.char := by
  obtain ⟨b, hcalls, hin, hwritten⟩ :=
    foldlM_written (new_inBuffer mCharBuffer) .dec calls
  refine ⟨b, hcalls, hin, hwritten.trans ?_⟩
  simp [new, stream, OutputStream.written, pending]

end StreamBuffer

end CyPhOS
