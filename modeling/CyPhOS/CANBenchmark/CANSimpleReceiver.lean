import CyPhOS.Lib.BitField
import CyPhOS.IMX6.CanBufferRuns
import Mathlib.Tactic.IntervalCases

/-! # The receiver of the CAN benchmark

The receiver reads a counter from the eight bytes of a message, the most significant byte first, and
answers with the counter in a message of its own. The first byte of the answer is taken from bit 54
on instead of bit 56: see `receiveMessage_roundTrip_iff`.
-/

namespace CyPhOS

structure CANSimpleReceiver where
  mMessage : Nat → UInt8
  mCounter : UInt64
  mLostMessages : UInt32

namespace CANSimpleReceiver

def TEST_MESSAGE_ID : Nat := 0xAC

/-- `recvVal` -/
def decode (recvMessage : Nat → UInt8) : UInt64 :=
  (recvMessage 7).toUInt64 ||| (recvMessage 6).toUInt64 <<< 8 |||
    (recvMessage 5).toUInt64 <<< 16 ||| (recvMessage 4).toUInt64 <<< 24 |||
    (recvMessage 3).toUInt64 <<< 32 ||| (recvMessage 2).toUInt64 <<< 40 |||
    (recvMessage 1).toUInt64 <<< 48 ||| (recvMessage 0).toUInt64 <<< 56

/-- The assignments to `mMessage`. -/
def encode (recvVal : UInt64) (mMessage : Nat → UInt8) : Nat → UInt8
  | 7 => (recvVal &&& 0xFF).toUInt8
  | 6 => ((recvVal >>> 8) &&& 0xFF).toUInt8
  | 5 => ((recvVal >>> 16) &&& 0xFF).toUInt8
  | 4 => ((recvVal >>> 24) &&& 0xFF).toUInt8
  | 3 => ((recvVal >>> 32) &&& 0xFF).toUInt8
  | 2 => ((recvVal >>> 40) &&& 0xFF).toUInt8
  | 1 => ((recvVal >>> 48) &&& 0xFF).toUInt8
  | 0 => ((recvVal >>> 54) &&& 0xFF).toUInt8
  | i => mMessage i

/-- The receiver and the buffers after a message, and the argument of the event that is emitted. -/
structure Answer where
  receiver : CANSimpleReceiver
  rx : CanBuffer
  tx : CanBuffer
  line : Option (Fin 10)

/-- The trigger, with the content of the local buffer before the message is read. -/
def receiveMessage (r : CANSimpleReceiver) (rx tx : CanBuffer) (recvMessage : Nat → UInt8)
    (arg : Nat) : Answer :=
  let (result, rx) := rx.readMsg arg recvMessage
  let recvMessage := (result.map CanBuffer.MsgRead.message).getD recvMessage
  let recvVal := decode recvMessage
  let mLostMessages :=
    if recvVal ≠ r.mCounter + 1 then r.mLostMessages + 1 else r.mLostMessages
  let mMessage := encode recvVal r.mMessage
  let (line, tx) := tx.enterMsg mMessage 8 TEST_MESSAGE_ID
  ⟨⟨mMessage, recvVal, mLostMessages⟩, rx, tx, line⟩

/-! ## The codec -/

variable {message old : Nat → UInt8} {recvVal : UInt64} {i : Nat}

theorem toNat_ofNat_mod {s : Nat} (hs : s < 64) : (UInt64.ofNat s).toNat % 64 = s := by
  rw [UInt64.toNat_ofNat']
  omega

/-- The lower `bits` bits of a word are those of `n`, and the others are clear. -/
structure Holds (x : UInt64) (bits n : Nat) : Prop where
  value : x.toNat = n
  lt : n < 2 ^ bits

theorem Holds.byte (b : UInt8) : Holds b.toUInt64 8 b.toNat := ⟨rfl, b.toNat_lt⟩

/-- A byte above the bits of a word. -/
theorem Holds.or_byte {x : UInt64} {bits n : Nat} (h : Holds x bits n) (b : UInt8)
    (hbits : bits ≤ 56) :
    Holds (x ||| b.toUInt64 <<< UInt64.ofNat bits) (bits + 8) (b.toNat * 2 ^ bits + n) := by
  have hlt : b.toNat * 2 ^ bits + n < 2 ^ (bits + 8) := by
    calc b.toNat * 2 ^ bits + n < b.toNat * 2 ^ bits + 2 ^ bits := Nat.add_lt_add_left h.lt _
      _ = (b.toNat + 1) * 2 ^ bits := (Nat.succ_mul _ _).symm
      _ ≤ 2 ^ 8 * 2 ^ bits := Nat.mul_le_mul_right _ b.toNat_lt
      _ = 2 ^ (bits + 8) := by rw [Nat.mul_comm, Nat.pow_add]
  have hfits : b.toNat * 2 ^ bits < 2 ^ 64 :=
    calc b.toNat * 2 ^ bits ≤ b.toNat * 2 ^ bits + n := Nat.le_add_right _ n
      _ < 2 ^ (bits + 8) := hlt
      _ ≤ 2 ^ 64 := Nat.pow_le_pow_right (by decide) (by omega)
  refine ⟨?_, hlt⟩
  rw [UInt64.toNat_or, UInt64.toNat_shiftLeft, UInt8.toNat_toUInt64,
    toNat_ofNat_mod (by omega : bits < 64), Nat.shiftLeft_eq,
    Nat.mod_eq_of_lt hfits, h.value, Nat.or_comm, BitField.or_flags (Nat.dvd_mul_left _ _) h.lt]

/-- The counter that the bytes stand for. -/
def counter (message : Nat → UInt8) : Nat :=
  (message 0).toNat * 2 ^ 56 + ((message 1).toNat * 2 ^ 48 + ((message 2).toNat * 2 ^ 40 +
    ((message 3).toNat * 2 ^ 32 + ((message 4).toNat * 2 ^ 24 + ((message 5).toNat * 2 ^ 16 +
      ((message 6).toNat * 2 ^ 8 + (message 7).toNat))))))

theorem toNat_decode : (decode message).toNat = counter message := by
  have h1 := (Holds.byte (message 7)).or_byte (message 6) (by decide)
  have h2 := h1.or_byte (message 5) (by decide)
  have h3 := h2.or_byte (message 4) (by decide)
  have h4 := h3.or_byte (message 3) (by decide)
  have h5 := h4.or_byte (message 2) (by decide)
  have h6 := h5.or_byte (message 1) (by decide)
  exact (h6.or_byte (message 0) (by decide)).value

/-- The bytes are the digits of the counter. -/
theorem counter_digit (hi : i ≤ 7) :
    counter message / 2 ^ (8 * (7 - i)) % 2 ^ 8 = (message i).toNat := by
  have h0 := (message 0).toNat_lt
  have h1 := (message 1).toNat_lt
  have h2 := (message 2).toNat_lt
  have h3 := (message 3).toNat_lt
  have h4 := (message 4).toNat_lt
  have h5 := (message 5).toNat_lt
  have h6 := (message 6).toNat_lt
  have h7 := (message 7).toNat_lt
  rw [counter]
  interval_cases i <;> omega

theorem decode_congr {message' : Nat → UInt8} (h : ∀ i < 8, message i = message' i) :
    decode message = decode message' := by
  simp only [decode, h 0 (by decide), h 1 (by decide), h 2 (by decide), h 3 (by decide),
    h 4 (by decide), h 5 (by decide), h 6 (by decide), h 7 (by decide)]

theorem toNat_shiftRight_byte {s : Nat} (hs : s < 64) :
    ((recvVal >>> UInt64.ofNat s) &&& 0xFF).toUInt8.toNat = recvVal.toNat / 2 ^ s % 2 ^ 8 := by
  have hmask : (0xFF : UInt64).toNat = 2 ^ 8 - 1 := rfl
  rw [UInt64.toNat_toUInt8, UInt64.toNat_and, UInt64.toNat_shiftRight,
    toNat_ofNat_mod hs, hmask,
    Nat.and_two_pow_sub_one_eq_mod, Nat.mod_mod, Nat.shiftRight_eq_div_pow]

/-- All the bytes but the first are those of the counter. -/
theorem toNat_encode (hpos : 1 ≤ i) (hi : i ≤ 7) :
    (encode recvVal old i).toNat = recvVal.toNat / 2 ^ (8 * (7 - i)) % 2 ^ 8 := by
  rcases hi.eq_or_lt with rfl | hlt
  · have hmask : (0xFF : UInt64).toNat = 2 ^ 8 - 1 := rfl
    change (recvVal &&& 0xFF).toUInt8.toNat = recvVal.toNat / 1 % 2 ^ 8
    rw [UInt64.toNat_toUInt8, UInt64.toNat_and, hmask, Nat.and_two_pow_sub_one_eq_mod,
      Nat.mod_mod, Nat.div_one]
  · interval_cases i <;> exact toNat_shiftRight_byte (by decide)

theorem toNat_encode_zero : (encode recvVal old 0).toNat = recvVal.toNat / 2 ^ 54 % 2 ^ 8 :=
  toNat_shiftRight_byte (by decide)

/-- The top two bits of the second byte, four times. -/
def RepeatsTop (message : Nat → UInt8) : Prop := message 0 = (0x55 : UInt8) * (message 1 >>> 6)

instance : Decidable (RepeatsTop message) := inferInstanceAs (Decidable (_ = _))

theorem repeatsTop_iff :
    RepeatsTop message ↔ (message 0).toNat = 0x55 * ((message 1).toNat / 2 ^ 6) := by
  have hlt := (message 1).toNat_lt
  rw [RepeatsTop, ← UInt8.toNat_inj, UInt8.toNat_mul, UInt8.toNat_shiftRight]
  change (message 0).toNat = 0x55 * ((message 1).toNat >>> 6) % 2 ^ 8 ↔ _
  rw [Nat.shiftRight_eq_div_pow, Nat.mod_eq_of_lt (by omega)]

theorem encode_decode (hpos : 1 ≤ i) (hi : i ≤ 7) : encode (decode message) old i = message i := by
  rw [← UInt8.toNat_inj, toNat_encode hpos hi, toNat_decode, counter_digit hi]

/-- The first byte of the answer has the lower bits of the first byte, moved up by two. -/
theorem encode_decode_zero_iff :
    encode (decode message) old 0 = message 0 ↔ RepeatsTop message := by
  have h0 : counter message / 2 ^ 56 % 2 ^ 8 = (message 0).toNat := counter_digit (Nat.zero_le 7)
  have h1 : counter message / 2 ^ 48 % 2 ^ 8 = (message 1).toNat :=
    counter_digit (show 1 ≤ 7 by decide)
  rw [← UInt8.toNat_inj, toNat_encode_zero, toNat_decode, repeatsTop_iff]
  omega

/-- Which messages are answered with the same bytes. -/
theorem forall_encode_decode_iff :
    (∀ i < 8, encode (decode message) old i = message i) ↔ RepeatsTop message := by
  rw [← @encode_decode_zero_iff message old]
  constructor
  · exact fun h => h 0 (by decide)
  · intro h i hi
    cases i with
    | zero => exact h
    | succ i => exact encode_decode (Nat.le_add_left 1 i) (Nat.lt_succ_iff.mp hi)

theorem digit_add_mod (n k : Nat) : n / 2 ^ k % 2 ^ 8 * 2 ^ k + n % 2 ^ k = n % 2 ^ (k + 8) := by
  rw [Nat.pow_add, Nat.mod_mul, Nat.mul_comm (2 ^ k), Nat.add_comm]

/-- The lower bytes of a counter come back. -/
theorem counter_encode : counter (encode recvVal old) =
    (encode recvVal old 0).toNat * 2 ^ 56 + recvVal.toNat % 2 ^ 56 := by
  have hbyte : ∀ i, 1 ≤ i → i ≤ 7 →
      (encode recvVal old i).toNat = recvVal.toNat / 2 ^ (8 * (7 - i)) % 2 ^ 8 :=
    fun i => toNat_encode
  have hlast : (encode recvVal old 7).toNat = recvVal.toNat % 2 ^ 8 := by
    rw [hbyte 7 (by decide) (by decide), Nat.sub_self, Nat.mul_zero, Nat.pow_zero, Nat.div_one]
  rw [counter, hlast, hbyte 6 (by decide) (by decide), digit_add_mod,
    hbyte 5 (by decide) (by decide), digit_add_mod, hbyte 4 (by decide) (by decide), digit_add_mod,
    hbyte 3 (by decide) (by decide), digit_add_mod, hbyte 2 (by decide) (by decide), digit_add_mod,
    hbyte 1 (by decide) (by decide), digit_add_mod]

/-- Which counters come back. -/
theorem decode_encode_iff : decode (encode recvVal old) = recvVal ↔
    recvVal.toNat / 2 ^ 56 = 0x55 * (recvVal.toNat / 2 ^ 54 % 4) := by
  have hlt := recvVal.toNat_lt
  rw [← UInt64.toNat_inj, toNat_decode, counter_encode, toNat_encode_zero]
  have htop : recvVal.toNat / 2 ^ 54 % 4 < 4 := Nat.mod_lt _ (by decide)
  interval_cases htop' : recvVal.toNat / 2 ^ 54 % 4 <;> omega

/-! ## The answer -/

open CanBuffer

theorem receiveMessage_used (r : CANSimpleReceiver) (rx tx : CanBuffer)
    (recvMessage : Nat → UInt8) (n : Fin 10) (hused : (rx.mBuffer n).isUsed = true)
    (hlength : (rx.mBuffer n).dataLength = 8) :
    ∃ line, (r.receiveMessage rx tx recvMessage n).line = some line ∧
      ((r.receiveMessage rx tx recvMessage n).tx.mBuffer line).data =
        (List.range 8).map (encode (decode (rx.mBuffer n).msg) r.mMessage) := by
  obtain ⟨line, hline⟩ := tx.reserve_isSome
  have hcopy : decode (copyMsg (rx.mBuffer n).msg recvMessage 8) = decode (rx.mBuffer n).msg :=
    decode_congr fun i hi => if_pos hi
  refine ⟨line, ?_⟩
  rw [receiveMessage, readMsg_eq, if_pos hused, hlength]
  dsimp only [Option.map_some, Option.getD_some]
  rw [hcopy, enterMsg_eq _ _ (le_refl 8) hline]
  refine ⟨rfl, ?_⟩
  dsimp only
  rw [Function.update_self]
  exact data_copyMsg ..

/-- A message of eight bytes is answered with the same bytes if its first byte repeats the top two
bits of the second one. -/
theorem receiveMessage_roundTrip_iff (r : CANSimpleReceiver) (rx tx : CanBuffer)
    (recvMessage : Nat → UInt8) (n : Fin 10) (hused : (rx.mBuffer n).isUsed = true)
    (hlength : (rx.mBuffer n).dataLength = 8) :
    ∃ line, (r.receiveMessage rx tx recvMessage n).line = some line ∧
      (((r.receiveMessage rx tx recvMessage n).tx.mBuffer line).data = (rx.mBuffer n).data ↔
        RepeatsTop (rx.mBuffer n).msg) := by
  obtain ⟨line, hline, hdata⟩ := r.receiveMessage_used rx tx recvMessage n hused hlength
  refine ⟨line, hline, ?_⟩
  rw [hdata, CanBufferMsg.data, hlength, List.map_inj_left,
    ← @forall_encode_decode_iff _ r.mMessage]
  simp only [List.mem_range]

/-- A receive buffer with the counter `value` in its first line. -/
def received (value : UInt64) : CanBuffer :=
  { CanBuffer.new with
    mBuffer := Function.update CanBuffer.new.mBuffer CanBuffer.new.mWritePosition
      { id := 0xAB
        msg := fun i => (value >>> UInt64.ofNat (8 * (7 - i))).toUInt8
        dataLength := 8
        isUsed := true } }

/-- The counter 1000. -/
theorem receiveMessage_roundTrip_1000 : ∃ line,
    (receiveMessage ⟨fun _ => 0, 999, 0⟩ (received 1000) .new (fun _ => 0) 0).line = some line ∧
      ((receiveMessage ⟨fun _ => 0, 999, 0⟩ (received 1000) .new (fun _ => 0)
        0).tx.mBuffer line).data = ((received 1000).mBuffer 0).data := by
  obtain ⟨line, hline, hdata⟩ := receiveMessage_roundTrip_iff ⟨fun _ => 0, 999, 0⟩ (received 1000)
    .new (fun _ => 0) 0 rfl rfl
  exact ⟨line, hline, hdata.mpr (by decide)⟩

/-- The counter `2 ^ 54` comes back as `2 ^ 56 + 2 ^ 54`. -/
theorem receiveMessage_shifts : ¬ ∀ (r : CANSimpleReceiver) (rx tx : CanBuffer)
    (recvMessage : Nat → UInt8) (n : Fin 10), (rx.mBuffer n).isUsed = true →
      (rx.mBuffer n).dataLength = 8 →
      ∃ line, (r.receiveMessage rx tx recvMessage n).line = some line ∧
        ((r.receiveMessage rx tx recvMessage n).tx.mBuffer line).data = (rx.mBuffer n).data := by
  intro h
  obtain ⟨line, hline, hdata⟩ := h ⟨fun _ => 0, 0, 0⟩ (received 0x40000000000000) .new
    (fun _ => 0) 0 rfl rfl
  obtain ⟨line', hline', hdata'⟩ := receiveMessage_used ⟨fun _ => 0, 0, 0⟩
    (received 0x40000000000000) .new (fun _ => 0) 0 rfl rfl
  rw [Option.some.inj (hline.symm.trans hline'), hdata'] at hdata
  revert hdata
  decide

end CANSimpleReceiver

end CyPhOS
