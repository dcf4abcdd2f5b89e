import CyPhOS.IMX6.CanBuffer

/-! # Transmitting through the MCP2515

The controller has three transmit buffers, which the two send triggers use in turn. `loadTxBuffer`
waits for the buffer, writes the message into its registers and says whether it has done so
(`loadTxBuffer_ok_iff`, `loadTxBuffer_stores`). The triggers do not look at what it says: they send
exactly the message if and only if it can be loaded, and fits in the local array
(`sendMessage_iff`).
-/

namespace CyPhOS

namespace MCP2515SPI

/-- A request-to-send instruction: the bits of the buffers, and the registers as they were then. -/
structure TxRequest where
  buffers : Nat
  registers : Nat → UInt8

/-- `status` are the answers of the next `readStatus` instructions. -/
structure TxController where
  registers : Nat → UInt8
  status : Nat → Nat
  requests : List TxRequest

/-- The part of the driver that sends. -/
structure Transmitter where
  controller : TxController
  useBuffer : Fin 3
  canInitialised : Bool
  canTXBuffer : CanBuffer

/-- `MCP2515_OK`, `MCP2515_TX_BUFFER_BUSY` and `MCP2515_WRONG_PARAMETER`. -/
inductive TxResult
  | ok
  | txBufferBusy
  | wrongParameter
  deriving DecidableEq

/-! ## Instructions -/

def txbCtrl : Nat → Nat
  | 0 => 0x30
  | 1 => 0x40
  | _ => 0x50

def txbSidh (buffer : Nat) : Nat := txbCtrl buffer + 1

def txbSidl (buffer : Nat) : Nat := txbCtrl buffer + 2

def txbDlc (buffer : Nat) : Nat := txbCtrl buffer + 5

def txbD0 (buffer : Nat) : Nat := txbCtrl buffer + 6

/-- The bit of `readStatus` that is set while the buffer waits to be sent. -/
def txreq : Nat → Nat
  | 0 => 0x4
  | 1 => 0x10
  | _ => 0x40

namespace TxController

def readStatus (c : TxController) : Nat × TxController :=
  (c.status 0, { c with status := fun i => c.status (i + 1) })

def writeRegister (c : TxController) (address : Nat) (value : UInt8) : TxController :=
  { c with registers := Function.update c.registers address value }

def requestToSend (c : TxController) (buffer0 buffer1 buffer2 : Nat) : TxController :=
  if buffer0 > 1 ∨ buffer1 > 1 ∨ buffer2 > 1 then c
  else { c with requests := c.requests ++
    [⟨buffer2 <<< 2 ||| buffer1 <<< 1 ||| buffer0, c.registers⟩] }

/-- The loop that waits until the buffer is ready, with the number of answers after which it gives
up. -/
def awaitReady (buffer : Nat) : Nat → TxController → Bool × TxController
  | 0, c => (false, c)
  | answers + 1, c =>
    if c.readStatus.1 &&& txreq buffer ≠ 0 then awaitReady buffer answers c.readStatus.2
    else (true, c.readStatus.2)

/-- The loop that writes the data, from byte `i` on, with the number of bytes that are left. -/
def writeData (buffer : Nat) (message : Nat → UInt8) : Nat → Nat → TxController → TxController
  | _, 0, c => c
  | i, n + 1, c =>
    writeData buffer message (i + 1) n (c.writeRegister (txbD0 buffer + i) (message i))

def writeMessage (c : TxController) (buffer : Nat) (message : Nat → UInt8)
    (dataLength messageID : Nat) : TxController :=
  let c := c.writeRegister (txbSidh buffer) (UInt8.ofNat (messageID >>> 3))
  let regVal := c.registers (txbSidl buffer) &&& (0x17 : UInt8) |||
    UInt8.ofNat ((messageID &&& 0x7) <<< 5)
  let c := c.writeRegister (txbSidl buffer) regVal
  let c := c.writeRegister (txbDlc buffer) (UInt8.ofNat dataLength)
  writeData buffer message 0 dataLength c

def loadTxBuffer (c : TxController) (buffer : Nat) (message : Nat → UInt8)
    (dataLength messageID : Nat) : TxResult × TxController :=
  if buffer > 2 ∨ dataLength > 8 ∨ dataLength = 0 ∨ messageID > 0x7ff then (.wrongParameter, c)
  else
    match c.awaitReady buffer 51 with
    | (false, c) => (.txBufferBusy, c)
    | (true, c) => (.ok, c.writeMessage buffer message dataLength messageID)

end TxController

/-! ## The triggers -/

namespace Transmitter

/-- What both triggers do with the message. -/
def send (s : Transmitter) (message : Nat → UInt8) (dataLength id : Nat) : Transmitter :=
  if s.canInitialised then
    let c := (s.controller.loadTxBuffer s.useBuffer message dataLength id).2
    let c :=
      if s.useBuffer = 0 then c.requestToSend 1 0 0
      else if s.useBuffer = 1 then c.requestToSend 0 1 0
      else if s.useBuffer = 2 then c.requestToSend 0 0 1
      else c
    { s with controller := c, useBuffer := s.useBuffer + 1 }
  else s

/-- `message` is the local array of eight bytes; `none` if something is written behind its end. -/
def triggerFunc_sendMessage (s : Transmitter) (arg : Nat) (message : Nat → UInt8) :
    Option Transmitter :=
  match s.canTXBuffer.readMsg (arg % 256) message with
  | (none, canTXBuffer) => some { s with canTXBuffer }
  | (some r, canTXBuffer) =>
    if 8 < r.dataLength then none
    else some ({ s with canTXBuffer }.send r.message r.dataLength r.messageID)

/-- `can_message`, in the memory of the sender. -/
structure MemoryMessage where
  id : Nat
  datalength : Nat
  message : Nat → UInt8

/-- The loop that copies the message, from byte `i` on, with the number of bytes that are left. -/
def copyMessage (theMessage : Nat → UInt8) : Nat → Nat → (Nat → UInt8) → Option (Nat → UInt8)
  | _, 0, message => some message
  | i, n + 1, message =>
    if i < 8 then copyMessage theMessage (i + 1) n (Function.update message i (theMessage i))
    else none

def triggerFunc_sendMessageFromMemory (s : Transmitter) (theMessage : MemoryMessage)
    (message : Nat → UInt8) : Option Transmitter := do
  let message ← copyMessage theMessage.message 0 theMessage.datalength message
  pure (s.send message theMessage.datalength theMessage.id)

end Transmitter

/-! ## The promise -/

/-- The registers of the buffer hold the message, in a frame with a standard identifier. -/
structure Stores (registers : Nat → UInt8) (buffer : Nat) (message : Nat → UInt8)
    (dataLength messageID : Nat) : Prop where
  identifier : ((registers (txbSidh buffer)).toNat <<< 3) |||
    ((registers (txbSidl buffer)).toNat >>> 5) = messageID
  standard : (registers (txbSidl buffer)).toNat &&& 0x8 = 0
  length : (registers (txbDlc buffer)).toNat = dataLength
  data : ∀ i < dataLength, registers (txbD0 buffer + i) = message i

/-- What is requested is the message, and nothing happens if it is not loaded. -/
structure SendLaw (s : Transmitter) (message : Nat → UInt8) (dataLength id : Nat)
    (s' : Transmitter) : Prop where
  requests : ∃ new, s'.controller.requests = s.controller.requests ++ new ∧ ∀ q ∈ new,
    q.buffers = 1 <<< s.useBuffer.val ∧
      (s.controller.loadTxBuffer s.useBuffer message dataLength id).1 = .ok ∧
      Stores q.registers s.useBuffer message dataLength id
  failed : s.canInitialised = true →
    (s.controller.loadTxBuffer s.useBuffer message dataLength id).1 ≠ .ok →
    s'.controller.requests = s.controller.requests ∧ s'.useBuffer = s.useBuffer

/-- Nothing is written behind the local array, and what has been read is sent. -/
def SendMessageLaw (s : Transmitter) (arg : Nat) (message : Nat → UInt8) : Prop :=
  ∃ s', s.triggerFunc_sendMessage arg message = some s' ∧
    match (s.canTXBuffer.readMsg (arg % 256) message).1 with
    | none => s'.controller.requests = s.controller.requests ∧ s'.useBuffer = s.useBuffer
    | some r => SendLaw s r.message r.dataLength r.messageID s'

def SendFromMemoryLaw (s : Transmitter) (theMessage : Transmitter.MemoryMessage)
    (message : Nat → UInt8) : Prop :=
  ∃ s', s.triggerFunc_sendMessageFromMemory theMessage message = some s' ∧
    SendLaw s theMessage.message theMessage.datalength theMessage.id s'

/-- The buffer is ready before the driver gives up. -/
def Ready (c : TxController) (buffer : Nat) : Prop := ∃ k < 51, c.status k &&& txreq buffer = 0

/-- The message is one that can be sent, and the buffer is ready for it. -/
structure Loadable (s : Transmitter) (dataLength id : Nat) : Prop where
  pos : 1 ≤ dataLength
  le : dataLength ≤ 8
  identifier : id ≤ 0x7ff
  ready : Ready s.controller s.useBuffer

/-! ## Loading a buffer -/

namespace TxController

variable {c : TxController} {buffer dataLength messageID : Nat} {message : Nat → UInt8}

theorem awaitReady_iff {answers : Nat} : (c.awaitReady buffer answers).1 = true ↔
    ∃ k < answers, c.status k &&& txreq buffer = 0 := by
  induction answers generalizing c with
  | zero => simp [awaitReady]
  | succ answers ih =>
    rw [awaitReady]
    split
    · next hbusy =>
      rw [ih]
      constructor
      · rintro ⟨k, hk, hready⟩
        exact ⟨k + 1, by omega, hready⟩
      · rintro ⟨k, hk, hready⟩
        cases k with
        | zero => exact absurd hready hbusy
        | succ k => exact ⟨k, by omega, hready⟩
    · next hready => exact iff_of_true rfl ⟨0, Nat.succ_pos _, not_not.mp hready⟩

theorem awaitReady_snd (c : TxController) (buffer answers : Nat) :
    (c.awaitReady buffer answers).2.registers = c.registers ∧
      (c.awaitReady buffer answers).2.requests = c.requests := by
  induction answers generalizing c with
  | zero => exact ⟨rfl, rfl⟩
  | succ answers ih =>
    rw [awaitReady]
    split
    · exact ih c.readStatus.2
    · exact ⟨rfl, rfl⟩

theorem writeData_requests {i n : Nat} :
    (writeData buffer message i n c).requests = c.requests := by
  induction n generalizing c i with
  | zero => rfl
  | succ n ih => exact ih

theorem writeData_below {i n address : Nat} (h : address < txbD0 buffer + i) :
    (writeData buffer message i n c).registers address = c.registers address := by
  induction n generalizing c i with
  | zero => rfl
  | succ n ih =>
    rw [writeData, ih (by omega)]
    exact Function.update_of_ne (by omega) ..

theorem writeData_data {i n k : Nat} (hi : i ≤ k) (hk : k < i + n) :
    (writeData buffer message i n c).registers (txbD0 buffer + k) = message k := by
  induction n generalizing c i with
  | zero => omega
  | succ n ih =>
    rw [writeData]
    rcases Nat.lt_or_eq_of_le hi with hlt | rfl
    · exact ih hlt (by omega)
    · rw [writeData_below (by omega)]
      exact Function.update_self ..

theorem loadTxBuffer_ok_iff : (c.loadTxBuffer buffer message dataLength messageID).1 = .ok ↔
    buffer ≤ 2 ∧ 1 ≤ dataLength ∧ dataLength ≤ 8 ∧ messageID ≤ 0x7ff ∧ Ready c buffer := by
  rw [loadTxBuffer, Ready, ← awaitReady_iff]
  split
  · next hwrong => exact iff_of_false nofun fun h => by omega
  · next hright =>
    cases hready : c.awaitReady buffer 51 with
    | mk ready c' =>
      cases ready with
      | false => simp
      | true => simp; omega

/-- Loading a buffer does not send anything. -/
theorem loadTxBuffer_requests :
    (c.loadTxBuffer buffer message dataLength messageID).2.requests = c.requests := by
  rw [loadTxBuffer]
  split
  · rfl
  · have hsnd := (c.awaitReady_snd buffer 51).2
    split
    · next heq => rwa [heq] at hsnd
    · next heq =>
      rw [heq] at hsnd
      rw [writeMessage, writeData_requests]
      exact hsnd

/-- The lower part of the identifier, with the bit for extended frames cleared. -/
theorem sidl_eq (old : UInt8) {low : Nat} (hlow : low < 8) :
    (old &&& (0x17 : UInt8) ||| UInt8.ofNat (low <<< 5)).toNat >>> 5 = low ∧
      (old &&& (0x17 : UInt8) ||| UInt8.ofNat (low <<< 5)).toNat &&& 0x8 = 0 := by
  have hshift : (UInt8.ofNat (low <<< 5)).toNat = low <<< 5 := by
    simp [Nat.shiftLeft_eq]
    omega
  rw [UInt8.toNat_or, UInt8.toNat_and, hshift]
  constructor
  · rw [Nat.shiftRight_or_distrib, Nat.shiftRight_and_distrib, Nat.shiftLeft_shiftRight]
    simp
  · rw [Nat.and_or_distrib_right, Nat.and_assoc]
    have hclear : ∀ low < 8, low <<< 5 &&& 0x8 = 0 := by decide
    rw [hclear low hlow]
    simp

/-- The registers of the buffer that lie below the data. -/
theorem writeMessage_registers (c : TxController) (buffer : Nat) (message : Nat → UInt8)
    (dataLength messageID : Nat) :
    (c.writeMessage buffer message dataLength messageID).registers (txbSidh buffer) =
        UInt8.ofNat (messageID >>> 3) ∧
      (c.writeMessage buffer message dataLength messageID).registers (txbSidl buffer) =
        c.registers (txbSidl buffer) &&& (0x17 : UInt8) |||
          UInt8.ofNat ((messageID &&& 0x7) <<< 5) ∧
      (c.writeMessage buffer message dataLength messageID).registers (txbDlc buffer) =
        UInt8.ofNat dataLength := by
  have hsidl : txbSidl buffer ≠ txbSidh buffer := by
    simp only [txbSidh, txbSidl]
    omega
  have hsidh : txbSidh buffer ≠ txbDlc buffer := by
    simp only [txbSidh, txbDlc]
    omega
  have hdlc : txbSidl buffer ≠ txbDlc buffer := by
    simp only [txbSidl, txbDlc]
    omega
  have hbelow : txbSidh buffer < txbD0 buffer + 0 ∧ txbSidl buffer < txbD0 buffer + 0 ∧
      txbDlc buffer < txbD0 buffer + 0 := by
    simp only [txbSidh, txbSidl, txbDlc, txbD0]
    omega
  simp only [writeMessage, writeData_below hbelow.1, writeData_below hbelow.2.1,
    writeData_below hbelow.2.2]
  simp [writeRegister, hsidl, hsidl.symm, hsidh, hdlc]

theorem writeMessage_stores (hlength : dataLength ≤ 8) (hid : messageID ≤ 0x7ff) :
    Stores (c.writeMessage buffer message dataLength messageID).registers buffer message dataLength
      messageID := by
  obtain ⟨hsidh, hsidl, hdlc⟩ :=
    writeMessage_registers c buffer message dataLength messageID
  have hlow : messageID &&& 0x7 = messageID % 8 := Nat.and_two_pow_sub_one_eq_mod _ 3
  obtain ⟨hidentifier, hstandard⟩ := sidl_eq (c.registers (txbSidl buffer))
    (show messageID &&& 0x7 < 8 by omega)
  have hhigh : (UInt8.ofNat (messageID >>> 3)).toNat = messageID / 8 := by
    simp [Nat.shiftRight_eq_div_pow]
    omega
  refine ⟨?_, by rw [hsidl, hstandard], ?_, fun i hi => writeData_data (Nat.zero_le i) (by omega)⟩
  · rw [hsidh, hsidl, hidentifier, hhigh, hlow, ← Nat.shiftLeft_add_eq_or_of_lt (by omega),
      Nat.shiftLeft_eq]
    omega
  · rw [hdlc]
    simp
    omega

theorem loadTxBuffer_stores (h : (c.loadTxBuffer buffer message dataLength messageID).1 = .ok) :
    Stores (c.loadTxBuffer buffer message dataLength messageID).2.registers buffer message
      dataLength messageID := by
  obtain ⟨hbuffer, hpos, hlength, hid, -⟩ := loadTxBuffer_ok_iff.mp h
  rw [loadTxBuffer, if_neg (by omega)] at h ⊢
  split at h
  · cases h
  · exact writeMessage_stores hlength hid

end TxController

/-! ## Sending -/

variable {s s' : Transmitter} {message message' : Nat → UInt8} {dataLength id : Nat}

theorem loadable_iff (s : Transmitter) (message : Nat → UInt8) (dataLength id : Nat) :
    (s.controller.loadTxBuffer s.useBuffer message dataLength id).1 = .ok ↔
      Loadable s dataLength id := by
  rw [TxController.loadTxBuffer_ok_iff]
  constructor
  · rintro ⟨-, hpos, hle, hid, hready⟩
    exact ⟨hpos, hle, hid, hready⟩
  · rintro ⟨hpos, hle, hid, hready⟩
    exact ⟨by omega, hpos, hle, hid, hready⟩

/-- The request names the buffer that is in use, whether it has been loaded or not. -/
theorem send_requests (hinit : s.canInitialised = true) :
    (s.send message dataLength id).controller.requests = s.controller.requests ++
      [⟨1 <<< s.useBuffer.val,
        (s.controller.loadTxBuffer s.useBuffer message dataLength id).2.registers⟩] := by
  rw [Transmitter.send, if_pos hinit]
  have hrequests : (s.controller.loadTxBuffer s.useBuffer message dataLength id).2.requests =
      s.controller.requests := TxController.loadTxBuffer_requests
  obtain h0 | h1 | h2 : s.useBuffer = 0 ∨ s.useBuffer = 1 ∨ s.useBuffer = 2 := by omega
  · simp [h0, TxController.requestToSend, ← hrequests]
  · simp [h1, TxController.requestToSend, ← hrequests]
  · simp [h2, TxController.requestToSend, ← hrequests]

/-- The message is sent, and nothing else, if and only if it can be loaded or the controller is not
in use yet. -/
theorem send_iff (s : Transmitter) (message : Nat → UInt8) (dataLength id : Nat) :
    SendLaw s message dataLength id (s.send message dataLength id) ↔
      (s.canInitialised = true → Loadable s dataLength id) := by
  constructor
  · rintro ⟨-, hfailed⟩ hinit
    by_contra hload
    rw [← loadable_iff s message] at hload
    have hlength := congrArg List.length (hfailed hinit hload).1
    rw [send_requests hinit] at hlength
    simp at hlength
  · intro hload
    cases hinit : s.canInitialised with
    | false =>
      have hsend : s.send message dataLength id = s := by
        rw [Transmitter.send, if_neg (by simp [hinit])]
      rw [hsend]
      exact ⟨⟨[], by simp, nofun⟩, fun h => by rw [hinit] at h; cases h⟩
    | true =>
      have hok := (loadable_iff s message dataLength id).mpr (hload hinit)
      refine ⟨⟨_, send_requests hinit, ?_⟩, fun _ hno => absurd hok hno⟩
      intro q hq
      rw [List.mem_singleton.mp hq]
      exact ⟨rfl, hok, TxController.loadTxBuffer_stores hok⟩

/-- Only the bytes that are sent matter. -/
theorem SendLaw.congr (h : SendLaw s message dataLength id s')
    (hmessage : ∀ i < dataLength, message i = message' i) :
    SendLaw s message' dataLength id s' := by
  have hload : (s.controller.loadTxBuffer s.useBuffer message' dataLength id).1 = .ok ↔
      (s.controller.loadTxBuffer s.useBuffer message dataLength id).1 = .ok := by
    rw [loadable_iff, loadable_iff]
  obtain ⟨⟨new, hnew, hsent⟩, hfailed⟩ := h
  refine ⟨⟨new, hnew, fun q hq => ?_⟩, fun hinit hno => hfailed hinit (mt hload.mpr hno)⟩
  obtain ⟨hbuffers, hok, hstores⟩ := hsent q hq
  exact ⟨hbuffers, hload.mpr hok, hstores.identifier, hstores.standard, hstores.length,
    fun i hi => (hstores.data i hi).trans (hmessage i hi)⟩

/-! ## The triggers -/

/-- The local array has room for eight bytes. -/
theorem copyMessage_fits (theMessage message : Nat → UInt8) {i n : Nat} (h : i + n ≤ 8) :
    ∃ copy, Transmitter.copyMessage theMessage i n message = some copy ∧
      (∀ j < i, copy j = message j) ∧ ∀ j < i + n, i ≤ j → copy j = theMessage j := by
  induction n generalizing i message with
  | zero => exact ⟨message, rfl, fun _ _ => rfl, fun j hj hi => by omega⟩
  | succ n ih =>
    obtain ⟨copy, hcopy, hbelow, hcopied⟩ :=
      ih (Function.update message i (theMessage i)) (show i + 1 + n ≤ 8 by omega)
    refine ⟨copy, by rw [Transmitter.copyMessage, if_pos (by omega)]; exact hcopy, fun j hj => ?_,
      fun j hj hi => ?_⟩
    · rw [hbelow j (by omega)]
      exact Function.update_of_ne (by omega) ..
    · rcases Nat.lt_or_eq_of_le hi with hlt | rfl
      · exact hcopied j (by omega) hlt
      · rw [hbelow i (by omega)]
        exact Function.update_self ..

theorem copyMessage_overflows {theMessage : Nat → UInt8} {i n : Nat} (hi : i ≤ 8)
    (h : 8 < i + n) : Transmitter.copyMessage theMessage i n message = none := by
  induction n generalizing i message with
  | zero => omega
  | succ n ih =>
    rw [Transmitter.copyMessage]
    split
    · exact ih (by omega) (by omega)
    · rfl

/-- Taking the message out of its line does not touch what is sent with. -/
theorem send_iff_taken (s : Transmitter) (canTXBuffer : CanBuffer) (message : Nat → UInt8)
    (dataLength id : Nat) :
    SendLaw s message dataLength id ({ s with canTXBuffer }.send message dataLength id) ↔
      (s.canInitialised = true → Loadable s dataLength id) := by
  have hlaw : SendLaw s message dataLength id ({ s with canTXBuffer }.send message dataLength id) ↔
      SendLaw { s with canTXBuffer } message dataLength id
        ({ s with canTXBuffer }.send message dataLength id) :=
    ⟨fun h => ⟨h.requests, h.failed⟩, fun h => ⟨h.requests, h.failed⟩⟩
  have hload : Loadable { s with canTXBuffer } dataLength id ↔ Loadable s dataLength id :=
    ⟨fun h => ⟨h.pos, h.le, h.identifier, h.ready⟩, fun h => ⟨h.pos, h.le, h.identifier, h.ready⟩⟩
  rw [hlaw, send_iff, hload]

theorem sendMessage_iff (s : Transmitter) (arg : Nat) (message : Nat → UInt8) :
    SendMessageLaw s arg message ↔
      ∀ r, (s.canTXBuffer.readMsg (arg % 256) message).1 = some r →
        r.dataLength ≤ 8 ∧ (s.canInitialised = true → Loadable s r.dataLength r.messageID) := by
  rw [SendMessageLaw, Transmitter.triggerFunc_sendMessage]
  cases hread : s.canTXBuffer.readMsg (arg % 256) message with
  | mk result canTXBuffer =>
    cases result with
    | none => exact iff_of_true ⟨_, rfl, rfl, rfl⟩ nofun
    | some r =>
      simp only [Option.some.injEq, forall_eq']
      by_cases hlength : 8 < r.dataLength
      · rw [if_pos hlength]
        exact iff_of_false nofun fun h => absurd h.1 (Nat.not_le.mpr hlength)
      · rw [if_neg hlength, and_iff_right (Nat.not_lt.mp hlength), ← send_iff_taken]
        constructor
        · rintro ⟨s', hs', hlaw⟩
          cases hs'
          exact hlaw
        · exact fun hlaw => ⟨_, rfl, hlaw⟩

theorem sendMessageFromMemory_iff (s : Transmitter) (theMessage : Transmitter.MemoryMessage)
    (message : Nat → UInt8) :
    SendFromMemoryLaw s theMessage message ↔ theMessage.datalength ≤ 8 ∧
      (s.canInitialised = true → Loadable s theMessage.datalength theMessage.id) := by
  rw [SendFromMemoryLaw, Transmitter.triggerFunc_sendMessageFromMemory]
  rcases Nat.lt_or_ge 8 theMessage.datalength with hlong | hlength
  · rw [copyMessage_overflows (Nat.zero_le 8) (by omega)]
    exact iff_of_false nofun fun h => absurd h.1 (Nat.not_le.mpr hlong)
  · obtain ⟨copy, hcopy, -, hcopied⟩ :=
      copyMessage_fits theMessage.message message
        (show 0 + theMessage.datalength ≤ 8 by omega)
    have hsame : ∀ i < theMessage.datalength, copy i = theMessage.message i :=
      fun i hi => hcopied i (by omega) (Nat.zero_le i)
    rw [hcopy, and_iff_right hlength, ← send_iff s copy]
    constructor
    · rintro ⟨s', hs', hlaw⟩
      cases hs'
      exact hlaw.congr fun i hi => (hsame i hi).symm
    · exact fun hlaw => ⟨_, rfl, hlaw.congr hsame⟩

/-- Both triggers keep to the promise if and only if the message fits in the local array and can be
loaded, or nothing is sent. -/
theorem transmit_exactly_iff (s : Transmitter) (message : Nat → UInt8) :
    (∀ arg, SendMessageLaw s arg message ↔
      ∀ r, (s.canTXBuffer.readMsg (arg % 256) message).1 = some r →
        r.dataLength ≤ 8 ∧ (s.canInitialised = true → Loadable s r.dataLength r.messageID)) ∧
    ∀ theMessage, SendFromMemoryLaw s theMessage message ↔ theMessage.datalength ≤ 8 ∧
      (s.canInitialised = true → Loadable s theMessage.datalength theMessage.id) :=
  ⟨fun arg => sendMessage_iff s arg message,
    fun theMessage => sendMessageFromMemory_iff s theMessage message⟩

/-- A message with the identifier 0x800 is not loaded, but the buffer is sent. -/
theorem sendMessageFromMemory_sendsStale :
    ¬SendFromMemoryLaw ⟨⟨fun _ => 0, fun _ => 0, []⟩, 0, true, .new⟩ ⟨0x800, 1, fun _ => 0⟩
      fun _ => 0 := by
  rw [sendMessageFromMemory_iff]
  rintro ⟨-, hload⟩
  exact absurd (hload rfl).identifier (by decide)

end MCP2515SPI

end CyPhOS
