import CyPhOS.IMX6.CanBuffer
import CyPhOS.Lib.DeviceProgram

/-! # Receiving from the MCP2515

The controller has two receive buffers, each with a flag in `CANINTF`. While its flag is set a
buffer takes no new frame. `interrupt` is the loop of the interrupt trigger, as a `Prog` over the
register accesses; the entry into the `CanRXBuffer` and the triggering of a `CANEvent` are accesses
too, since frames may arrive in between.
-/

namespace CyPhOS

open DeviceProgram

/-- A data frame with a standard identifier. -/
structure CanFrame where
  id : Fin 2048
  dataLength : Fin 16
  data : Nat → UInt8

/-- The registers of a receive buffer, counted from `RXBnCTRL` on. -/
def CanFrame.register (f : CanFrame) (offset : Nat) : UInt8 :=
  if offset = 1 then UInt8.ofNat (f.id.val >>> 3)
  else if offset = 2 then UInt8.ofNat ((f.id.val % 8) <<< 5)
  else if offset = 5 then UInt8.ofNat f.dataLength.val
  else if 6 ≤ offset then f.data (offset - 6)
  else 0

/-- `CANEvent`: an event and the identifier that it is registered for. -/
structure CANEvent (E : Type) where
  event : E
  messageID : Nat

namespace MCP2515SPI

variable {E : Type}

/-! ## The program -/

inductive Op (E : Type)
  | rxStatus
  | readRegister (address : Nat)
  | bitModify (address mask data : Nat)
  | enterMsg (message : Nat → UInt8) (dataLength messageID : Nat)
  | eventTriggered (event : E) (line : Option (Fin 10))

def Op.Res : Op E → Type
  | rxStatus => Nat
  | readRegister _ => UInt8
  | bitModify .. => Unit
  | enterMsg .. => Option (Fin 10)
  | eventTriggered .. => Unit

abbrev Driver (E : Type) := Prog (Op E) Op.Res

def rxStatus : Driver E Nat := .access .rxStatus .ret

def readRegister (address : Nat) : Driver E UInt8 := .access (.readRegister address) .ret

def bitModify (address mask data : Nat) : Driver E Unit :=
  .access (.bitModify address mask data) .ret

def enterMsg (message : Nat → UInt8) (dataLength messageID : Nat) : Driver E (Option (Fin 10)) :=
  .access (.enterMsg message dataLength messageID) .ret

def eventTriggered (event : E) (line : Option (Fin 10)) : Driver E Unit :=
  .access (.eventTriggered event line) .ret

def canintf : Nat := 0x2C

/-- The registers of receive buffer 0 (`false`) and 1 (`true`). -/
def rxbCtrl : Bool → Nat
  | false => 0x60
  | true => 0x70

def rxbSidh (buffer : Bool) : Nat := rxbCtrl buffer + 1

def rxbSidl (buffer : Bool) : Nat := rxbCtrl buffer + 2

def rxbDlc (buffer : Bool) : Nat := rxbCtrl buffer + 5

def rxbD0 (buffer : Bool) : Nat := rxbCtrl buffer + 6

/-- The bit of the buffer in `CANINTF`. -/
def flagMask : Bool → Nat
  | false => 0x1
  | true => 0x2

/-- The bit of the buffer in the answer to `rxStatus`. -/
def statusMask : Bool → Nat
  | false => 0x40
  | true => 0x80

def receivedMessageID (buffer : Bool) : Driver E Nat := do
  let status ← rxStatus
  if status = 0 then pure 0
  else if status &&& statusMask buffer = 0 then pure 0
  else do
    let sidh ← readRegister (rxbSidh buffer)
    let sidl ← readRegister (rxbSidl buffer)
    pure ((sidh.toNat <<< 3) ||| (sidl.toNat >>> 5))

def getRxDataLength (buffer : Bool) : Driver E Nat := do
  let dataLength ← readRegister (rxbDlc buffer)
  pure (dataLength.toNat &&& 0xf)

/-- The loop of `receive` from byte `i` on, with the number of bytes that are left. -/
def readMessage (buffer : Bool) : Nat → Nat → (Nat → UInt8) → Driver E (Nat → UInt8)
  | _, 0, message => pure message
  | i, n + 1, message => do
    let byte ← readRegister (rxbD0 buffer + i)
    readMessage buffer (i + 1) n (Function.update message i byte)

/-- The message that is in the caller's buffer afterwards. -/
def receive (buffer : Bool) (message : Nat → UInt8) (dataLength : Nat) :
    Driver E (Nat → UInt8) := do
  if dataLength > 8 ∨ dataLength = 0 then pure message
  else do
    let message ← readMessage buffer 0 dataLength message
    bitModify canintf (flagMask buffer) 0
    pure message

/-- The loop over the registered events. The caller's buffer is the same in all rounds. -/
def emitEvents (messageID : Nat) (bufferID : Bool) :
    List (CANEvent E) → (Nat → UInt8) → Bool → Driver E Bool
  | [], _, success => pure success
  | event :: events, buffer, success =>
    if event.messageID = messageID then do
      let dataLength ← getRxDataLength bufferID
      let buffer ← receive bufferID buffer dataLength
      let line ← enterMsg buffer dataLength messageID
      eventTriggered event.event line
      emitEvents messageID bufferID events buffer true
    else emitEvents messageID bufferID events buffer success

def emitCANEvent (mRegisteredEvents : List (CANEvent E)) (messageID : Nat) (bufferID : Bool) :
    Driver E Bool :=
  emitEvents messageID bufferID mRegisteredEvents (fun _ => 0) false

/-- The part of the loop's body that looks at one of the buffers. -/
def checkBuffer (mRegisteredEvents : List (CANEvent E)) (buffer : Bool) : Driver E Unit := do
  let messageID ← receivedMessageID buffer
  if messageID ≠ 0 then do
    let _ ← emitCANEvent mRegisteredEvents messageID buffer
    bitModify canintf (flagMask buffer) 0
  else pure ()

/-- One round of the loop, which begins with its condition. -/
def interrupt (mRegisteredEvents : List (CANEvent E)) : Driver E Bool := do
  let status ← rxStatus
  if status &&& statusMask false ≠ 0 ∨ status &&& statusMask true ≠ 0 then do
    checkBuffer mRegisteredEvents false
    checkBuffer mRegisteredEvents true
    pure true
  else pure false

/-! ## The device -/

/-- A receive buffer. `seen` notes that the identifier of its frame has been read. -/
structure RxBuffer where
  frame : CanFrame
  flag : Bool
  seen : Bool

/-- A call of `eventTriggered`, with the message that its line held then. -/
structure Delivery (E : Type) where
  event : E
  line : Option (Fin 10)
  id : Nat
  data : List UInt8
  deriving DecidableEq

/-- The controller and the `CanRXBuffer`, with what has happened so far: the frames that have been
received and those that have been discarded unread, the deliveries, and those of them whose line
has not been freed since. -/
structure State (E : Type) where
  rx : Bool → RxBuffer
  lines : CanBuffer
  received : List CanFrame
  lost : List CanFrame
  triggered : List (Delivery E)
  unread : List (Delivery E)

namespace State

/-- Both buffers are free. -/
def initial (junk : Bool → CanFrame) : State E :=
  ⟨fun b => ⟨junk b, false, true⟩, .new, [], [], [], []⟩

def rxStatus (s : State E) : Nat :=
  (if (s.rx false).flag then 0x40 else 0) + (if (s.rx true).flag then 0x80 else 0)

def register (s : State E) (address : Nat) : UInt8 :=
  if address < 0x70 then (s.rx false).frame.register (address - 0x60)
  else (s.rx true).frame.register (address - 0x70)

def setRx (s : State E) (buffer : Bool) (r : RxBuffer) : State E :=
  { s with rx := Function.update s.rx buffer r }

/-- Reading the upper part of the identifier. -/
def see (s : State E) (address : Nat) : State E :=
  { s with rx := fun b =>
      if address = rxbSidh b then { s.rx b with seen := true } else s.rx b }

/-- A flag after `bitModify`. -/
def modifyFlag (mask data : Nat) (buffer flag : Bool) : Bool :=
  if mask &&& flagMask buffer = 0 then flag else data &&& flagMask buffer ≠ 0

def bitModify (s : State E) (address mask data : Nat) : State E :=
  if address = canintf then
    { s with
      rx := fun b => { s.rx b with flag := modifyFlag mask data b (s.rx b).flag }
      lost := s.lost ++ ([false, true].filter fun b =>
        (s.rx b).flag && !(s.rx b).seen && !modifyFlag mask data b (s.rx b).flag).map
          fun b => (s.rx b).frame }
  else s

/-- What a delivery finds in its line. -/
def delivery (s : State E) (event : E) (line : Option (Fin 10)) : Delivery E :=
  { event, line
    id := (line.map fun n => (s.lines.mBuffer n).id).getD 0
    data := (line.map fun n => (s.lines.mBuffer n).data).getD [] }

def eventTriggered (s : State E) (event : E) (line : Option (Fin 10)) : State E :=
  { s with
    triggered := s.triggered ++ [s.delivery event line]
    unread := s.unread ++ [s.delivery event line] }

def access : (op : Op E) → State E → Option (op.Res × State E)
  | .rxStatus, s => some (s.rxStatus, s)
  | .readRegister address, s => some (s.register address, s.see address)
  | .bitModify address mask data, s => some ((), s.bitModify address mask data)
  | .enterMsg message dataLength messageID, s =>
    let r := s.lines.enterMsg message dataLength messageID
    some (r.1, { s with lines := r.2 })
  | .eventTriggered event line, s => some ((), s.eventTriggered event line)

end State

inductive Event
  | arrive (buffer : Bool) (f : CanFrame)
  /-- The receiver of a delivery has read its line. -/
  | freeLine (line : Fin 10)

namespace State

def event : Event → State E → Option (State E)
  | .arrive buffer f, s =>
    if (s.rx buffer).flag then none
    else some { s.setRx buffer ⟨f, true, false⟩ with received := s.received ++ [f] }
  | .freeLine line, s =>
    if s.unread.any (·.line = some line) then
      some { s with
        lines := s.lines.freeLine line
        unread := s.unread.filter (·.line ≠ some line) }
    else none

end State

def device (E : Type) : Device (State E) (Op E) Op.Res Event where
  access := State.access
  event := State.event

end MCP2515SPI

end CyPhOS
